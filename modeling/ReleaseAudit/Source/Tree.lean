import ReleaseAudit.Source.Kind

/-!
# Syntax trees

A tree is a label with the trees of its children in source order, tokens and
comments included. The label carries the source text that the tree covers, so
that questions about names need no second look at the file.
-/

namespace ReleaseAudit.Source

set_option autoImplicit false

inductive Field where
  | alternative | arguments | body | condition | consequence | expression | function | left
  | name | operator | parameters | returns | right | type | typeParameters | value
  | other (spelling : String)
deriving DecidableEq, Repr

namespace Field

def spelling : Field → String
  | alternative => "alternative"
  | arguments => "arguments"
  | body => "body"
  | condition => "condition"
  | consequence => "consequence"
  | expression => "expression"
  | function => "function"
  | left => "left"
  | name => "name"
  | operator => "operator"
  | parameters => "parameters"
  | returns => "returns"
  | right => "right"
  | type => "type"
  | typeParameters => "type_parameters"
  | value => "value"
  | other spelling => spelling

def known : List Field :=
  [alternative, arguments, body, condition, consequence, expression, function, left, name,
    operator, parameters, returns, right, type, typeParameters, value]

def ofSpelling (spelling : String) : Field :=
  (known.find? fun field => field.spelling == spelling).getD (other spelling)

end Field

structure Label where
  kind : Kind
  /-- False for tokens such as `=` or `using`. -/
  named : Bool
  field : Option Field
  /-- First byte, and the byte after the last. Parsers count bytes in 32 bits. -/
  startByte : UInt32
  stopByte : UInt32
  text : String
deriving DecidableEq, Repr

namespace Label

def start (label : Label) : Nat := label.startByte.toNat

def stop (label : Label) : Nat := label.stopByte.toNat

end Label

inductive Tree where
  | node (label : Label) (children : List Tree)

namespace Tree

def label : Tree → Label
  | node label _ => label

def children : Tree → List Tree
  | node _ children => children

def size : Tree → Nat
  | node _ children => sizes children + 1
where
  sizes : List Tree → Nat
    | [] => 0
    | tree :: rest => tree.size + sizes rest

theorem size_le_sizes {tree : Tree} {trees : List Tree} (member : tree ∈ trees) :
    tree.size ≤ size.sizes trees := by
  induction trees with
  | nil => cases member
  | cons head rest ih =>
      simp only [size.sizes]
      rcases List.mem_cons.mp member with rfl | inRest
      · omega
      · have := ih inRest
        omega

theorem size_lt_of_mem_children {child tree : Tree} (member : child ∈ tree.children) :
    child.size < tree.size := by
  cases tree with
  | node label children =>
      have := size_le_sizes member
      simp only [size, Tree.children] at *
      omega

end Tree

end ReleaseAudit.Source
