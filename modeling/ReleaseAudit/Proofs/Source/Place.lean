import ReleaseAudit.Proofs.Source.Parent
import ReleaseAudit.Source.Walk

/-!
# Places in a tree

The place of a node is the way down to it from the top of its tree. Going to
children, to enclosing nodes or along a walk stays in the same tree.
-/

namespace ReleaseAudit.Source

set_option autoImplicit false

namespace Tree

/-- The tree that is reached by taking the children with the given indices. -/
def at? : Tree → List Nat → Option Tree
  | tree, [] => some tree
  | tree, index :: rest => tree.children[index]?.bind fun child => child.at? rest

theorem at_append (tree : Tree) (first second : List Nat) :
    tree.at? (first ++ second) = (tree.at? first).bind fun inner => inner.at? second := by
  induction first generalizing tree with
  | nil => rfl
  | cons index rest ih =>
      simp only [List.cons_append, at?, Option.bind_assoc]
      congr 1
      funext child
      exact ih child

end Tree

namespace Node

def topFrom : Tree → List Frame → Tree
  | tree, [] => tree
  | _, frame :: above => topFrom frame.parent above

def top (node : Node) : Tree :=
  topFrom node.tree node.above

def place (node : Node) : List Nat :=
  node.path.reverse

theorem top_of_parent {node parent : Node} (found : node.parent? = some parent) :
    node.top = parent.top := by
  obtain ⟨tree, above, linked⟩ := node
  cases above with
  | nil => cases found
  | cons frame above =>
      cases found
      rfl

theorem top_of_mem_children {node child : Node} (member : child ∈ node.children) :
    child.top = node.top :=
  top_of_parent (parent_of_mem_children member)

theorem top_of_mem_parts {node child : Node} (member : child ∈ node.parts) :
    child.top = node.top :=
  top_of_mem_children (mem_children_of_mem_parts member)

theorem top_of_mem_ancestors {node ancestor : Node} (member : ancestor ∈ node.ancestors) :
    ancestor.top = node.top := by
  obtain ⟨tree, above, linked⟩ := node
  induction above generalizing tree with
  | nil => cases member
  | cons frame above ih =>
      rcases List.mem_cons.mp member with rfl | further
      · rfl
      · exact ih frame.parent linked.2 further

@[simp] theorem place_of_parent (tree : Tree) (frame : Frame) (above : List Frame)
    (linked : Linked tree (frame :: above)) :
    place ⟨tree, frame :: above, linked⟩ =
      place ⟨frame.parent, above, linked.2⟩ ++ [frame.index] := by
  simp [place, path]

theorem at_place (node : Node) : node.top.at? node.place = some node.tree := by
  obtain ⟨tree, above, linked⟩ := node
  induction above generalizing tree with
  | nil => rfl
  | cons frame above ih =>
      have outer := ih frame.parent linked.2
      have same : top ⟨tree, frame :: above, linked⟩ = top ⟨frame.parent, above, linked.2⟩ := rfl
      rw [place_of_parent, same, Tree.at_append, outer, Option.bind_some, Tree.at?, linked.1]
      rfl

theorem eq_of_place {left right : Node} (sameTop : left.top = right.top)
    (samePlace : left.place = right.place) : left = right := by
  obtain ⟨tree, above, linked⟩ := left
  obtain ⟨otherTree, otherAbove, otherLinked⟩ := right
  induction above generalizing tree otherTree otherAbove with
  | nil =>
      cases otherAbove with
      | nil =>
          cases sameTop
          rfl
      | cons frame otherAbove => simp [place, path] at samePlace
  | cons frame above ih =>
      cases otherAbove with
      | nil => simp [place, path] at samePlace
      | cons otherFrame otherAbove =>
          rw [place_of_parent, place_of_parent] at samePlace
          obtain ⟨outer, lastIndex⟩ := List.append_inj' samePlace rfl
          have parents := ih frame.parent linked.2 otherFrame.parent otherAbove otherLinked.2
            sameTop outer
          obtain ⟨parent, index⟩ := frame
          obtain ⟨otherParent, otherIndex⟩ := otherFrame
          cases parents
          cases lastIndex
          have trees : some tree = some otherTree := linked.1.symm.trans otherLinked.1
          cases trees
          rfl

/-- The enclosing nodes are those of the same tree whose place is a proper beginning. -/
theorem mem_ancestors_iff {node ancestor : Node} :
    ancestor ∈ node.ancestors ↔
      ancestor.top = node.top ∧ ∃ index rest, node.place = ancestor.place ++ index :: rest := by
  obtain ⟨tree, above, linked⟩ := node
  induction above generalizing tree with
  | nil => simp [ancestors, ancestorsFrom, place, path]
  | cons frame above ih =>
      have outer := ih frame.parent linked.2
      rw [place_of_parent]
      constructor
      · intro member
        rcases List.mem_cons.mp member with rfl | further
        · exact ⟨rfl, frame.index, [], rfl⟩
        · obtain ⟨same, index, rest, there⟩ := outer.mp further
          exact ⟨same, index, rest ++ [frame.index], by rw [there]; simp⟩
      · rintro ⟨same, index, rest, there⟩
        apply List.mem_cons.mpr
        rcases List.eq_nil_or_concat rest with rfl | ⟨start, last, rfl⟩
        · obtain ⟨parentPlace, -⟩ := List.append_inj' there rfl
          exact Or.inl (eq_of_place same parentPlace.symm)
        · have split : place ⟨frame.parent, above, linked.2⟩ ++ [frame.index] =
              (ancestor.place ++ index :: start) ++ [last] := by
            simpa using there
          obtain ⟨parentPlace, -⟩ := List.append_inj' split rfl
          exact Or.inr (outer.mpr ⟨same, index, start, parentPlace⟩)

theorem place_get_elem_children (node : Node) (index : Nat)
    (inside : index < node.children.length) :
    node.children[index].place = node.place ++ [index] := by
  simp [children, place, path]

end Node

namespace Walk

/-- What holds of the pending nodes and passes to named children holds of every visited node. -/
theorem forall_mem_visit {holds : Node → Prop}
    (passes : ∀ node, holds node → ∀ child ∈ node.namedChildren, holds child)
    {pending : List Node} (start : ∀ node ∈ pending, holds node) :
    ∀ node ∈ visit pending, holds node := by
  fun_induction visit pending with
  | case1 =>
      intro node member
      cases member
  | case2 first rest ih =>
      intro node member
      have own := start first List.mem_cons_self
      rcases List.mem_cons.mp member with rfl | later
      · exact own
      · refine ih (fun other pendingToo => ?_) node later
        rcases List.mem_append.mp pendingToo with below | beside
        · exact passes first own other below
        · exact start other (List.mem_cons_of_mem first beside)

end Walk

namespace Node

theorem top_of_mem_descendants {node below : Node} (member : below ∈ node.descendants) :
    below.top = node.top := by
  have passes : ∀ inner : Node, inner.top = node.top →
      ∀ child ∈ inner.namedChildren, child.top = node.top := by
    intro inner same child inChildren
    exact (top_of_mem_children (mem_children_of_mem_named_children inChildren)).trans same
  have start : ∀ inner ∈ [node], inner.top = node.top := by
    intro inner inPending
    rw [List.mem_singleton.mp inPending]
  exact Walk.forall_mem_visit passes start below member

end Node

end ReleaseAudit.Source
