import ReleaseAudit.Source.Node

/-!
# Walking the named nodes below a node

The walk keeps the nodes still to be visited and always takes the first one,
putting the named children of that node in front of the rest. Every step takes
one label out of the pending trees, so the walk ends.
-/

namespace ReleaseAudit.Source

set_option autoImplicit false

namespace Walk

/-- Labels left to visit, tokens counted. -/
def weight : (pending : List Node) → Nat
  | [] => 0
  | node :: rest => node.tree.size + weight rest

theorem weight_filter_le (test : Node → Bool) (nodes : List Node) :
    weight (nodes.filter test) ≤ weight nodes := by
  induction nodes with
  | nil => exact Nat.le_refl _
  | cons node rest ih =>
      rw [List.filter_cons]
      split <;> simp only [weight] <;> omega

theorem weight_eq_sizes (nodes : List Node) :
    weight nodes = Tree.size.sizes (nodes.map Node.tree) := by
  induction nodes with
  | nil => rfl
  | cons node rest ih => simp only [weight, List.map_cons, Tree.size.sizes, ih]

theorem weight_children (node : Node) :
    weight node.children = Tree.size.sizes node.tree.children := by
  have trees : node.children.map Node.tree = node.tree.children := by
    unfold Node.children
    rw [List.map_map]
    exact List.attach_map_val.trans (List.zipIdx_map_fst 0 node.tree.children)
  rw [weight_eq_sizes, trees]

theorem weight_named_children_lt (node : Node) :
    weight node.namedChildren < node.tree.size := by
  have below := weight_filter_le Node.named node.children
  rw [weight_children] at below
  have total : node.tree.size = Tree.size.sizes node.tree.children + 1 := by
    cases node.tree
    rfl
  unfold Node.namedChildren
  omega

theorem weight_append (left right : List Node) :
    weight (left ++ right) = weight left + weight right := by
  induction left with
  | nil => simp [weight]
  | cons node rest ih =>
      simp only [List.cons_append, weight, ih]
      omega

def visit : (pending : List Node) → List Node
  | [] => []
  | node :: rest => node :: visit (node.namedChildren ++ rest)
termination_by pending => weight pending
decreasing_by
  have := weight_named_children_lt node
  rw [weight_append]
  simp only [weight]
  omega

end Walk

namespace Node

/-- The node and the named nodes below it, parents before children. -/
def descendants (node : Node) : List Node :=
  Walk.visit [node]

def descendantsOf (node : Node) (kind : Kind) : List Node :=
  node.descendants.filter fun below => below.kind == kind

end Node

end ReleaseAudit.Source
