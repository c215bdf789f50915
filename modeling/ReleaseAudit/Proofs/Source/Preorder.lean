import Mathlib.Logic.ExistsUnique
import ReleaseAudit.Proofs.Source.Climb
import ReleaseAudit.Proofs.Source.Order
import ReleaseAudit.Proofs.Source.Sample

/-!
# The walk as a recursive listing

The walk keeps one list of pending nodes from all levels of the tree. At every
moment what it has yielded, followed by the listings of what is pending, is the
listing of what it began with. So it ends with the recursive listing, in which
a node comes after the nodes around it and after all that lies to its left.
-/

namespace ReleaseAudit.Source

set_option autoImplicit false

/-- The node, followed by the listings of its named children from left to right. -/
def Node.listing (node : Node) : List Node :=
  node :: node.namedChildren.attach.flatMap fun child => listing child.val
termination_by node.tree.size
decreasing_by exact size_lt_of_mem_children (mem_children_of_mem_named_children child.property)

theorem Node.listing_eq (node : Node) :
    node.listing = node :: node.namedChildren.flatMap listing := by
  rw [listing, List.flatMap_subtype fun _ _ => rfl, List.unattach_attach]

namespace Walk

theorem visit_eq_flat_map_listing (pending : List Node) :
    visit pending = pending.flatMap Node.listing := by
  fun_induction visit pending with
  | case1 => rfl
  | case2 node rest ih => rw [ih, List.flatMap_append, List.flatMap_cons, Node.listing_eq,
      List.cons_append]

/-- Some steps of the walk: each yields the first pending node and puts its named children in
front of the rest. -/
inductive Steps : (pending yielded left : List Node) → Prop
  | rest (pending : List Node) : Steps pending [] pending
  | take {node : Node} {pending yielded left : List Node}
      (further : Steps (node.namedChildren ++ pending) yielded left) :
      Steps (node :: pending) (node :: yielded) left

namespace Steps

variable {pending yielded left : List Node}

/-- What is yielded and the listings of what is left make up the listings of the beginning. -/
theorem flat_map_listing (steps : Steps pending yielded left) :
    pending.flatMap Node.listing = yielded ++ left.flatMap Node.listing := by
  induction steps with
  | rest pending => rfl
  | @take node pending yielded left _ ih =>
      rw [List.flatMap_append] at ih
      rw [List.flatMap_cons, Node.listing_eq, List.cons_append, ih, List.cons_append]

theorem length_add_weight_le (steps : Steps pending yielded left) :
    yielded.length + weight left ≤ weight pending := by
  induction steps with
  | rest pending => simp
  | @take node pending yielded left _ ih =>
      have smaller := weight_named_children_lt node
      rw [weight_append] at ih
      simp only [weight, List.length_cons]
      omega

theorem to_end (pending : List Node) : Steps pending (visit pending) [] := by
  fun_induction visit pending with
  | case1 => exact .rest []
  | case2 node rest ih => exact .take ih

theorem to_end_iff : Steps pending yielded [] ↔ yielded = pending.flatMap Node.listing := by
  constructor
  · intro steps
    have whole := steps.flat_map_listing
    rw [List.flatMap_nil, List.append_nil] at whole
    exact whole.symm
  · rintro rfl
    rw [← visit_eq_flat_map_listing]
    exact to_end pending

end Steps

end Walk

namespace Node

theorem descendants_eq_listing (node : Node) : node.descendants = node.listing := by
  rw [descendants, Walk.visit_eq_flat_map_listing, List.flatMap_singleton]

theorem descendants_eq (node : Node) :
    node.descendants = node :: node.namedChildren.flatMap descendants := by
  rw [funext descendants_eq_listing, listing_eq]

/-- The last node is reached from the first by going to named children only. -/
inductive Reaches : (first last : Node) → Prop
  | self (node : Node) : Reaches node node
  | through {node child last : Node} (member : child ∈ node.namedChildren)
      (further : Reaches child last) : Reaches node last

theorem Reaches.within {first last : Node} (reaches : Reaches first last) :
    last.Within first := by
  induction reaches with
  | self node => exact .self node
  | @through node child last member _ ih =>
      have isParent := parent_of_mem_children (mem_children_of_mem_named_children member)
      exact ih.trans (.parent isParent (.self node))

theorem mem_listing_iff {first last : Node} : last ∈ first.listing ↔ Reaches first last := by
  constructor
  · intro member
    induction first using listing.induct with
    | case1 first ih =>
        rw [listing_eq] at member
        rcases List.mem_cons.mp member with rfl | below
        · exact .self last
        · obtain ⟨child, isChild, inside⟩ := List.mem_flatMap.mp below
          exact .through isChild (ih ⟨child, isChild⟩ inside)
  · intro reaches
    induction reaches with
    | self node =>
        rw [listing_eq]
        exact List.mem_cons_self
    | through isChild _ ih =>
        rw [listing_eq]
        exact List.mem_cons_of_mem _ (List.mem_flatMap.mpr ⟨_, isChild, ih⟩)

/-- Some node has a child around `left` and, further to the right, a child around `right`. -/
def LeftOf (left right : Node) : Prop :=
  ∃ outer first second : Node, [first, second].Sublist outer.children ∧
    left.Within first ∧ right.Within second

theorem pairwise_listing (node : Node) :
    node.listing.Pairwise fun left right => left ∈ right.ancestors ∨ left.LeftOf right := by
  induction node using listing.induct with
  | case1 node ih =>
      rw [listing_eq]
      refine List.pairwise_cons.mpr ⟨?_, List.pairwise_flatMap.mpr ⟨?_, ?_⟩⟩
      · intro below member
        obtain ⟨child, isChild, inside⟩ := List.mem_flatMap.mp member
        have isParent := parent_of_mem_children (mem_children_of_mem_named_children isChild)
        left
        apply (mem_listing_iff.mp inside).within.mem_ancestors
        rw [ancestors_of_parent isParent]
        exact List.mem_cons_self
      · intro child isChild
        exact ih ⟨child, isChild⟩
      · rw [List.pairwise_iff_forall_sublist]
        intro first second inOrder left inFirst right inSecond
        have amongChildren := inOrder.trans (List.filter_sublist :)
        exact Or.inr ⟨node, first, second, amongChildren, (mem_listing_iff.mp inFirst).within,
          (mem_listing_iff.mp inSecond).within⟩

theorem lt_of_left_of {left right : Node} (beside : left.LeftOf right) :
    left.place < right.place := by
  obtain ⟨outer, first, second, inOrder, inFirst, inSecond⟩ := beside
  obtain ⟨-, below, leftPlace⟩ := Within.iff_place.mp inFirst
  obtain ⟨-, beyond, rightPlace⟩ := Within.iff_place.mp inSecond
  have apart := List.pairwise_iff_forall_sublist.mp outer.pairwise_children inOrder
  rw [← leftPlace, ← rightPlace]
  exact (apart.append below beyond).lt

theorem pairwise_descendants (node : Node) :
    node.descendants.Pairwise fun left right => left.place < right.place := by
  rw [descendants_eq_listing]
  refine node.pairwise_listing.imp ?_
  rintro left right (around | beside)
  · exact lt_of_mem_ancestors around
  · exact lt_of_left_of beside

theorem nodup_descendants (root : Node) : root.descendants.Nodup := by
  refine root.pairwise_descendants.imp fun less same => ?_
  rw [same] at less
  exact List.lt_irrefl _ less

/-- What is reached has one place in the walk, and nothing else has any. -/
theorem reaches_iff_exists_unique {root node : Node} :
    Reaches root node ↔ ∃! index : Nat, root.descendants[index]? = some node := by
  rw [← mem_listing_iff, ← descendants_eq_listing, List.mem_iff_getElem?]
  constructor
  · rintro ⟨index, found⟩
    refine ⟨index, found, fun other foundToo => ?_⟩
    have inside := (List.getElem?_eq_some_iff.mp found).1
    exact ((List.getElem?_inj inside root.nodup_descendants).mp (found.trans foundToo.symm)).symm
  · rintro ⟨index, found, -⟩
    exact ⟨index, found⟩

section

variable {root left right : Node} {first second : Nat}
  (atFirst : root.descendants[first]? = some left)
  (atSecond : root.descendants[second]? = some right)
include atFirst atSecond

theorem index_lt_of_place_lt (less : left.place < right.place) : first < second := by
  have increasing := root.pairwise_descendants
  obtain ⟨insideFirst, rfl⟩ := List.getElem?_eq_some_iff.mp atFirst
  obtain ⟨insideSecond, rfl⟩ := List.getElem?_eq_some_iff.mp atSecond
  rcases Nat.lt_trichotomy first second with before | rfl | after
  · exact before
  · exact absurd less (List.lt_irrefl _)
  · have reversed := List.pairwise_iff_getElem.mp increasing _ _ insideSecond insideFirst after
    exact absurd (List.lt_trans less reversed) (List.lt_irrefl _)

theorem index_lt_iff : first < second ↔ left ∈ right.ancestors ∨ left.LeftOf right := by
  constructor
  · intro before
    have ordered := root.pairwise_listing
    rw [← descendants_eq_listing] at ordered
    obtain ⟨insideFirst, rfl⟩ := List.getElem?_eq_some_iff.mp atFirst
    obtain ⟨insideSecond, rfl⟩ := List.getElem?_eq_some_iff.mp atSecond
    exact List.pairwise_iff_getElem.mp ordered _ _ insideFirst insideSecond before
  · rintro (around | beside)
    · exact index_lt_of_place_lt atFirst atSecond (lt_of_mem_ancestors around)
    · exact index_lt_of_place_lt atFirst atSecond (lt_of_left_of beside)

end

end Node

/-- Every walk ends, and it ends with the recursive listing. It yields the nodes that named nodes
link to the root, each of them once, and of two nodes first the one that is around the other or
to the left of it. -/
theorem descendants_preorder (root : Node) :
    root.descendants = root.listing ∧
    (∀ yielded, Walk.Steps [root] yielded [] ↔ yielded = root.listing) ∧
    (∀ yielded left, Walk.Steps [root] yielded left →
      yielded.length ≤ root.tree.size ∧ root.listing = yielded ++ left.flatMap Node.listing ∧
        Walk.Steps left (Walk.visit left) []) ∧
    (∀ node, Node.Reaches root node ↔ ∃! index : Nat, root.descendants[index]? = some node) ∧
    ∀ (first second : Nat) (left right : Node), root.descendants[first]? = some left →
      root.descendants[second]? = some right →
      (first < second ↔ left ∈ right.ancestors ∨ left.LeftOf right) := by
  have whole : [root].flatMap Node.listing = root.listing := List.flatMap_singleton _ _
  refine ⟨root.descendants_eq_listing, ?_, ?_, ?_, ?_⟩
  · intro yielded
    rw [Walk.Steps.to_end_iff, whole]
  · intro yielded left steps
    have bound := steps.length_add_weight_le
    simp only [Walk.weight] at bound
    refine ⟨by omega, ?_, .to_end left⟩
    rw [← whole, steps.flat_map_listing]
  · intro node
    exact Node.reaches_iff_exists_unique
  · intro first second left right atFirst atSecond
    exact Node.index_lt_iff atFirst atSecond

/-- `F(a)` -/
def callTree : Tree :=
  Sample.invocationOf
    [.node ⟨.other "(", false, none, 0, 0, "("⟩ [], Sample.branch .argument none []]

theorem descendants_preorder_call :
    (Node.root callTree).descendants.map Node.place = [[], [0], [1], [1, 1]] ∧
    Walk.Steps [.root callTree] (Node.root callTree).descendants [] ∧
    ∃ function passed : Node, function.place = [0] ∧ passed.place = [1, 1] ∧
      function.LeftOf passed := by
  obtain ⟨listed, ends, -, -, ordered⟩ := descendants_preorder (.root callTree)
  have places : (Node.root callTree).descendants.map Node.place = [[], [0], [1], [1, 1]] := by
    decide +kernel
  obtain ⟨function, atFunction, functionPlace⟩ :
      ∃ node, (Node.root callTree).descendants[1]? = some node ∧ node.place = [0] := by
    rw [← Option.map_eq_some_iff, ← List.getElem?_map, places]
    rfl
  obtain ⟨passed, atPassed, passedPlace⟩ :
      ∃ node, (Node.root callTree).descendants[3]? = some node ∧ node.place = [1, 1] := by
    rw [← Option.map_eq_some_iff, ← List.getElem?_map, places]
    rfl
  have notAround : function ∉ passed.ancestors := by
    intro above
    obtain ⟨-, index, rest, there⟩ := Node.mem_ancestors_iff.mp above
    simp [functionPlace, passedPlace] at there
  have beside := ((ordered 1 3 function passed atFunction atPassed).mp (by decide)).resolve_left
    notAround
  exact ⟨places, (ends _).mpr listed, function, passed, functionPlace, passedPlace, beside⟩

end ReleaseAudit.Source
