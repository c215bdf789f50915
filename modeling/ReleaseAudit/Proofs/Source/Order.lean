import ReleaseAudit.Proofs.Source.Place

/-!
# The order of places

Places are ordered lexicographically: a node comes before what it encloses and
before what lies to the right of it. On a tree whose children are ordered,
disjoint and nested in their parent, a later node lies inside an earlier one or
begins where that one has ended.
-/

namespace ReleaseAudit.Source

set_option autoImplicit false

/-- Two places part at some level, where the first takes the smaller index. -/
inductive Apart : List Nat → List Nat → Prop
  | fork {left right : Nat} (less : left < right) (below beside : List Nat) :
      Apart (left :: below) (right :: beside)
  | descend (index : Nat) {below beside : List Nat} (apart : Apart below beside) :
      Apart (index :: below) (index :: beside)

namespace Apart

theorem append {left right : List Nat} (apart : Apart left right) (below beside : List Nat) :
    Apart (left ++ below) (right ++ beside) := by
  induction apart with
  | fork less inner outer => exact .fork less (inner ++ below) (outer ++ beside)
  | descend index _ ih => exact .descend index ih

theorem lt {left right : List Nat} (apart : Apart left right) : left < right := by
  induction apart with
  | fork less _ _ => exact .rel less
  | descend _ _ ih => exact .cons ih

theorem of_siblings (place : List Nat) {left right : Nat} (less : left < right) :
    Apart (place ++ [left]) (place ++ [right]) := by
  induction place with
  | nil => exact .fork less [] []
  | cons index _ ih => exact .descend index ih

end Apart

theorem lt_append_cons (place : List Nat) (index : Nat) (rest : List Nat) :
    place < place ++ index :: rest := by
  induction place with
  | nil => exact .nil
  | cons _ _ ih => exact .cons ih

namespace Node

theorem pairwise_children (node : Node) :
    node.children.Pairwise fun left right => Apart left.place right.place := by
  rw [List.pairwise_iff_getElem]
  intro left right insideLeft insideRight less
  rw [place_get_elem_children, place_get_elem_children]
  exact Apart.of_siblings node.place less

theorem lt_of_mem_ancestors {outer inner : Node} (above : outer ∈ inner.ancestors) :
    outer.place < inner.place := by
  obtain ⟨-, index, rest, there⟩ := mem_ancestors_iff.mp above
  rw [there]
  exact lt_append_cons outer.place index rest

theorem not_mem_ancestors_of_lt {left right : Node} (less : left.place < right.place) :
    right ∉ left.ancestors := by
  intro member
  exact List.lt_irrefl _ (List.lt_trans less (lt_of_mem_ancestors member))

end Node

namespace Tree

/-- Ranges are proper and the children of every node are ordered, disjoint and nested in it. -/
def isOrdered : Tree → Bool
  | .node label children =>
      decide (label.start ≤ label.stop) &&
        decide (children.Pairwise fun left right => left.label.stop ≤ right.label.start) &&
        children.all (fun child =>
          decide (label.start ≤ child.label.start ∧ child.label.stop ≤ label.stop)) &&
        allOrdered children
where
  allOrdered : List Tree → Bool
    | [] => true
    | child :: rest => child.isOrdered && allOrdered rest

theorem all_ordered_iff (trees : List Tree) :
    isOrdered.allOrdered trees = true ↔ ∀ child ∈ trees, child.isOrdered = true := by
  induction trees with
  | nil => simp [isOrdered.allOrdered]
  | cons child rest ih => simp [isOrdered.allOrdered, ih]

theorem is_ordered_iff (tree : Tree) :
    tree.isOrdered = true ↔
      tree.label.start ≤ tree.label.stop ∧
        (tree.children.Pairwise fun left right => left.label.stop ≤ right.label.start) ∧
        (∀ child ∈ tree.children, tree.label.start ≤ child.label.start ∧
          child.label.stop ≤ tree.label.stop) ∧
        ∀ child ∈ tree.children, child.isOrdered = true := by
  obtain ⟨label, children⟩ := tree
  change isOrdered (.node label children) = true ↔ label.start ≤ label.stop ∧
    (children.Pairwise fun left right => left.label.stop ≤ right.label.start) ∧
    (∀ child ∈ children, label.start ≤ child.label.start ∧ child.label.stop ≤ label.stop) ∧
    ∀ child ∈ children, child.isOrdered = true
  simp only [isOrdered, Bool.and_eq_true, decide_eq_true_eq, List.all_eq_true, all_ordered_iff,
    and_assoc]

theorem nested_of_at {tree inner : Tree} {place : List Nat} (ordered : tree.isOrdered = true)
    (found : tree.at? place = some inner) :
    inner.isOrdered = true ∧ tree.label.start ≤ inner.label.start ∧
      inner.label.stop ≤ tree.label.stop := by
  induction place generalizing tree with
  | nil =>
      cases found
      exact ⟨ordered, Nat.le_refl _, Nat.le_refl _⟩
  | cons index rest ih =>
      obtain ⟨child, isChild, found⟩ := Option.bind_eq_some_iff.mp found
      have member := List.mem_of_getElem? isChild
      obtain ⟨-, -, nested, below⟩ := (is_ordered_iff tree).mp ordered
      obtain ⟨innerOrdered, starts, stops⟩ := ih (below child member) found
      have around := nested child member
      exact ⟨innerOrdered, by omega, by omega⟩

/-- Of two places, the later one lies in the range of the earlier or begins after it. -/
theorem ranges_of_lt {tree first second : Tree} {left right : List Nat}
    (ordered : tree.isOrdered = true) (less : left < right)
    (atLeft : tree.at? left = some first) (atRight : tree.at? right = some second) :
    (∃ index rest, right = left ++ index :: rest ∧ first.label.start ≤ second.label.start ∧
      second.label.stop ≤ first.label.stop) ∨ first.label.stop ≤ second.label.start := by
  induction less generalizing tree with
  | @nil index rest =>
      cases atLeft
      obtain ⟨-, starts, stops⟩ := nested_of_at ordered atRight
      exact Or.inl ⟨index, rest, rfl, starts, stops⟩
  | @rel leftIndex below rightIndex beside indexLess =>
      obtain ⟨leftChild, isLeft, atLeft⟩ := Option.bind_eq_some_iff.mp atLeft
      obtain ⟨rightChild, isRight, atRight⟩ := Option.bind_eq_some_iff.mp atRight
      obtain ⟨-, disjoint, -, inner⟩ := (is_ordered_iff tree).mp ordered
      have parted : leftChild.label.stop ≤ rightChild.label.start := by
        obtain ⟨insideLeft, rfl⟩ := List.getElem?_eq_some_iff.mp isLeft
        obtain ⟨insideRight, rfl⟩ := List.getElem?_eq_some_iff.mp isRight
        exact List.pairwise_iff_getElem.mp disjoint _ _ insideLeft insideRight indexLess
      have firstEnd := (nested_of_at (inner _ (List.mem_of_getElem? isLeft)) atLeft).2.2
      have secondStart := (nested_of_at (inner _ (List.mem_of_getElem? isRight)) atRight).2.1
      exact Or.inr (Nat.le_trans firstEnd (Nat.le_trans parted secondStart))
  | @cons index below beside _ ih =>
      obtain ⟨child, isChild, atLeft⟩ := Option.bind_eq_some_iff.mp atLeft
      obtain ⟨otherChild, isOther, atRight⟩ := Option.bind_eq_some_iff.mp atRight
      cases isChild.symm.trans isOther
      obtain ⟨-, -, -, inner⟩ := (is_ordered_iff tree).mp ordered
      rcases ih (inner child (List.mem_of_getElem? isChild)) atLeft atRight with
        ⟨step, rest, rfl, starts, stops⟩ | after
      · exact Or.inl ⟨step, rest, rfl, starts, stops⟩
      · exact Or.inr after

end Tree

theorem Node.ranges_of_lt {left right : Node} (sameTop : left.top = right.top)
    (ordered : left.top.isOrdered = true) (less : left.place < right.place) :
    (left ∈ right.ancestors ∧ left.start ≤ right.start ∧ right.stop ≤ left.stop) ∨
      left.stop ≤ right.start := by
  have atRight := right.at_place
  rw [← sameTop] at atRight
  rcases Tree.ranges_of_lt ordered less left.at_place atRight with
    ⟨index, rest, there, starts, stops⟩ | after
  · exact Or.inl ⟨mem_ancestors_iff.mpr ⟨sameTop, index, rest, there⟩, starts, stops⟩
  · exact Or.inr after

theorem Node.start_le_stop {node : Node} (ordered : node.top.isOrdered = true) :
    node.start ≤ node.stop :=
  ((Tree.is_ordered_iff node.tree).mp (Tree.nested_of_at ordered node.at_place).1).1

end ReleaseAudit.Source
