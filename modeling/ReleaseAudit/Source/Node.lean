import ReleaseAudit.Source.Tree

/-!
# Nodes: trees with their place

A node is a tree together with the trees it lies in, innermost first. The link
between neighbours is part of the type, so a parent always holds its child at
the recorded index, and two nodes of one tree are the same exactly when their
paths are.
-/

namespace ReleaseAudit.Source

set_option autoImplicit false

/-- One level of the way up: the enclosing tree and the index within it. -/
structure Frame where
  parent : Tree
  index : Nat

/-- Each tree of the chain is the child of the next one at the recorded index. -/
def Linked : Tree → List Frame → Prop
  | _, [] => True
  | tree, frame :: above =>
      frame.parent.children[frame.index]? = some tree ∧ Linked frame.parent above

structure Node where
  tree : Tree
  above : List Frame
  linked : Linked tree above

namespace Node

def root (tree : Tree) : Node :=
  ⟨tree, [], trivial⟩

def label (node : Node) : Label := node.tree.label

def kind (node : Node) : Kind := node.label.kind

def named (node : Node) : Bool := node.label.named

def field (node : Node) : Option Field := node.label.field

def start (node : Node) : Nat := node.label.start

def stop (node : Node) : Nat := node.label.stop

def text (node : Node) : String := node.label.text

def path (node : Node) : List Nat :=
  node.above.map Frame.index

def depth (node : Node) : Nat := node.above.length

/-- Same place in the tree. -/
def same (left right : Node) : Bool :=
  left.path == right.path

def parent? : Node → Option Node
  | ⟨_, [], _⟩ => none
  | ⟨_, frame :: above, linked⟩ => some ⟨frame.parent, above, linked.2⟩

def parentOf? (node : Node) (kind : Kind) : Option Node :=
  node.parent?.filter fun parent => parent.kind == kind

def ancestorsFrom : (tree : Tree) → (above : List Frame) → Linked tree above → List Node
  | _, [], _ => []
  | _, frame :: above, linked =>
      ⟨frame.parent, above, linked.2⟩ :: ancestorsFrom frame.parent above linked.2

def ancestors (node : Node) : List Node :=
  ancestorsFrom node.tree node.above node.linked

def children (node : Node) : List Node :=
  node.tree.children.zipIdx.attach.map fun entry =>
    ⟨entry.val.1, ⟨node.tree, entry.val.2⟩ :: node.above,
      List.mk_mem_zipIdx_iff_getElem?.mp entry.property, node.linked⟩

def namedChildren (node : Node) : List Node :=
  node.children.filter Node.named

/-- Children other than tokens and comments. -/
def parts (node : Node) : List Node :=
  node.namedChildren.filter fun child => child.kind != .comment

def child? (node : Node) (field : Field) : Option Node :=
  node.children.find? fun child => child.field == some field

def firstPart? (node : Node) : Option Node :=
  node.parts.head?

def lastPart? (node : Node) : Option Node :=
  node.parts.getLast?

def partOf? (node : Node) (kind : Kind) : Option Node :=
  node.parts.find? fun child => child.kind == kind

def partsOf (node : Node) (kind : Kind) : List Node :=
  node.parts.filter fun child => child.kind == kind

def childOrFirst? (node : Node) (field : Field) : Option Node :=
  (node.child? field).or node.firstPart?

def childOrLast? (node : Node) (field : Field) : Option Node :=
  (node.child? field).or node.lastPart?

def hasToken (node : Node) (spelling : String) : Bool :=
  node.children.any fun child => child.kind.spelling == spelling

@[simp] theorem parent_of_mem_children {child node : Node} (member : child ∈ node.children) :
    child.parent? = some node := by
  obtain ⟨entry, _, rfl⟩ := List.mem_map.mp member
  rfl

theorem tree_mem_of_mem_children {child node : Node} (member : child ∈ node.children) :
    child.tree ∈ node.tree.children := by
  obtain ⟨entry, _, rfl⟩ := List.mem_map.mp member
  exact List.mem_of_getElem? (List.mk_mem_zipIdx_iff_getElem?.mp entry.property)

theorem size_lt_of_mem_children {child node : Node} (member : child ∈ node.children) :
    child.tree.size < node.tree.size :=
  Tree.size_lt_of_mem_children (tree_mem_of_mem_children member)

theorem mem_children_of_mem_named_children {child node : Node}
    (member : child ∈ node.namedChildren) : child ∈ node.children :=
  (List.mem_filter.mp member).1

theorem mem_children_of_mem_parts {child node : Node} (member : child ∈ node.parts) :
    child ∈ node.children :=
  mem_children_of_mem_named_children (List.mem_filter.mp member).1

theorem mem_children_of_child {child node : Node} {field : Field}
    (found : node.child? field = some child) : child ∈ node.children :=
  List.mem_of_find?_eq_some found

theorem mem_parts_of_part_of {child node : Node} {kind : Kind}
    (found : node.partOf? kind = some child) : child ∈ node.parts :=
  List.mem_of_find?_eq_some found

theorem mem_children_of_first_part {child node : Node} (found : node.firstPart? = some child) :
    child ∈ node.children :=
  mem_children_of_mem_parts (List.mem_of_head? found)

theorem mem_children_of_last_part {child node : Node} (found : node.lastPart? = some child) :
    child ∈ node.children :=
  mem_children_of_mem_parts (List.mem_of_getLast? found)

theorem mem_children_of_child_or_first {child node : Node} {field : Field}
    (found : node.childOrFirst? field = some child) : child ∈ node.children := by
  rcases Option.or_eq_some_iff.mp found with found | ⟨_, found⟩
  · exact mem_children_of_child found
  · exact mem_children_of_first_part found

theorem mem_children_of_child_or_last {child node : Node} {field : Field}
    (found : node.childOrLast? field = some child) : child ∈ node.children := by
  rcases Option.or_eq_some_iff.mp found with found | ⟨_, found⟩
  · exact mem_children_of_child found
  · exact mem_children_of_last_part found

end Node

end ReleaseAudit.Source
