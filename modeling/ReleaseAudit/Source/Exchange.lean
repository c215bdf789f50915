import ReleaseAudit.Json.Basic
import ReleaseAudit.Source.Document

/-!
# Outlines as JSON

A node is written as an array: its kind, its field in the parent, the offsets of
its start and end, then its children. A dollar sign before the kind marks a node
without a name, and an empty field stands for none.

Texts with their outlines, one object each, make a parser.
-/

namespace ReleaseAudit.Source.Outline

set_option autoImplicit false

def readKind (written : String) : Kind × Bool :=
  match Text.dropHead? "$" written with
  | some spelling => (Kind.ofSpelling spelling, false)
  | none => (Kind.ofSpelling written, true)

def readField (written : String) : Option Field :=
  if written.isEmpty then none else some (Field.ofSpelling written)

def readOffset? : Json → Option UInt32
  | .number (.ofNat offset) => if offset < UInt32.size then some (.ofNat offset) else none
  | _ => none

def ofJson? : Json → Option Outline
  | .array (.string kind :: .string field :: start :: stop :: children) =>
      match readOffset? start, readOffset? stop, ofJsons? children with
      | some start, some stop, some children =>
          some (node (readKind kind).1 (readKind kind).2 (readField field) start stop children)
      | _, _, _ => none
  | _ => none
where
  ofJsons? : List Json → Option (List Outline)
    | [] => some []
    | json :: rest =>
        match ofJson? json, ofJsons? rest with
        | some child, some children => some (child :: children)
        | _, _ => none

end ReleaseAudit.Source.Outline

namespace ReleaseAudit.Source.Parser

set_option autoImplicit false

def blank (text : String) : Outline :=
  .node .compilationUnit true none 0 (.ofNat text.utf8ByteSize) []

/-- A parser that knows the outlines of some texts. -/
def ofTrees (trees : List (String × Outline)) : Parser := fun text =>
  (trees.lookup text).getD (blank text)

def readTree? (json : Json) : Option (String × Outline) := do
  let text ← (json.get? "text").bind Json.text?
  let outline ← (json.get? "tree").bind Outline.ofJson?
  some (text, outline)

end ReleaseAudit.Source.Parser
