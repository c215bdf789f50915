import ReleaseAudit.Source.Walk
import ReleaseAudit.Text.Position

/-!
# Documents

A document is a file's path and text with the tree of the text.
-/

namespace ReleaseAudit.Source

set_option autoImplicit false

/-- A tree as a parser hands it over: kinds, fields and byte offsets only. -/
inductive Outline where
  | node (kind : Kind) (named : Bool) (field : Option Field) (start stop : UInt32)
      (children : List Outline)

namespace Outline

/-- Labels every node with the text it covers. -/
def spellOut (text : String) : Outline → Tree
  | node kind named field start stop children =>
      .node ⟨kind, named, field, start, stop, Text.slice text start.toNat stop.toNat⟩
        (spellAll text children)
where
  spellAll (text : String) : List Outline → List Tree
    | [] => []
    | outline :: rest => spellOut text outline :: spellAll text rest

end Outline

abbrev Parser := String → Outline

structure Document where
  path : String
  text : String
  tree : Tree

namespace Document

def ofOutline (path text : String) (outline : Outline) : Document :=
  ⟨path, text, outline.spellOut text⟩

def parse (parser : Parser) (path text : String) : Document :=
  ofOutline path text (parser text)

def root (document : Document) : Node :=
  Node.root document.tree

def firstRow (document : Document) (node : Node) : Nat :=
  Text.row document.text node.start

def lastRow (document : Document) (node : Node) : Nat :=
  Text.row document.text node.stop

end Document

end ReleaseAudit.Source
