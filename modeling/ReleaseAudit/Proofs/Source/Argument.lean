import ReleaseAudit.Proofs.Source.Climb
import ReleaseAudit.Proofs.Source.Edit
import ReleaseAudit.Proofs.Source.Receiver

/-!
# Arguments from above and from below

A call finds its arguments going down, by a field or by the first list among
its parts; a value finds its call going up, by kinds. Where a call has one list
at most, both ways pass the same nodes.
-/

namespace ReleaseAudit.Source

set_option autoImplicit false

namespace Tree

def everywhere (check : Tree → Bool) : Tree → Bool
  | .node label children => check (.node label children) && everywheres children
where
  everywheres : List Tree → Bool
    | [] => true
    | tree :: rest => everywhere check tree && everywheres rest

theorem everywhere_of_mem {check : Tree → Bool} {trees : List Tree}
    (holds : everywhere.everywheres check trees = true) {tree : Tree} (member : tree ∈ trees) :
    tree.everywhere check = true := by
  induction trees with
  | nil => cases member
  | cons first rest ih =>
      rw [everywhere.everywheres, Bool.and_eq_true] at holds
      rcases List.mem_cons.mp member with rfl | later
      · exact holds.1
      · exact ih holds.2 later

theorem everywhere_at {check : Tree → Bool} {tree inner : Tree} {place : List Nat}
    (holds : tree.everywhere check = true) (found : tree.at? place = some inner) :
    check inner = true := by
  induction place generalizing tree with
  | nil =>
      cases found
      obtain ⟨label, children⟩ := inner
      rw [everywhere, Bool.and_eq_true] at holds
      exact holds.1
  | cons index rest ih =>
      obtain ⟨child, isChild, below⟩ := Option.bind_eq_some_iff.mp found
      obtain ⟨label, children⟩ := tree
      rw [everywhere, Bool.and_eq_true] at holds
      exact ih (everywhere_of_mem holds.2 (List.mem_of_getElem? isChild)) below

/-- What the grammar says of a call: it has at most one list of arguments, and what is marked
as its arguments is that list. No token passes for a list or an argument. -/
def isRegular (tree : Tree) : Bool :=
  decide ((tree.label.kind = .argumentList ∨ tree.label.kind = .argument →
      tree.label.named = true) ∧
    (tree.label.kind.isCreation = true →
      (tree.children.filter fun child => child.label.kind == .argumentList).length ≤ 1 ∧
        ∀ child ∈ tree.children, child.label.field = some .arguments →
          child.label.kind = .argumentList))

end Tree

namespace Node

theorem check_tree_of_everywhere {check : Tree → Bool} {node : Node}
    (holds : node.top.everywhere check = true) : check node.tree = true :=
  Tree.everywhere_at holds node.at_place

theorem mem_children_of_parent {node parent : Node} (found : node.parent? = some parent) :
    node ∈ parent.children := by
  obtain ⟨tree, above, linked⟩ := node
  cases above with
  | nil => cases found
  | cons frame above =>
      cases found
      obtain ⟨outer, index⟩ := frame
      have inside := List.mk_mem_zipIdx_iff_getElem?.mpr linked.1
      exact List.mem_map.mpr ⟨⟨(tree, index), inside⟩, List.mem_attach _ _, rfl⟩

theorem mem_parts_of_is_regular {node parent : Node}
    (regular : node.top.everywhere Tree.isRegular = true) (isParent : node.parent? = some parent)
    (kind : node.kind = .argumentList ∨ node.kind = .argument) : node ∈ parent.parts := by
  have isNamed : node.named = true :=
    (of_decide_eq_true (check_tree_of_everywhere regular :)).1 kind
  have notComment : (node.kind != .comment) = true := by
    rcases kind with kind | kind <;> rw [kind] <;> rfl
  apply List.mem_filter.mpr
  exact ⟨List.mem_filter.mpr ⟨mem_children_of_parent isParent, isNamed⟩, notComment⟩

section Regular

variable {call : Node} (regular : call.top.everywhere Tree.isRegular = true)
  (creates : call.kind.isCreation = true)
include regular creates

theorem kind_of_child_arguments {list : Node} (found : call.child? .arguments = some list) :
    list.kind = .argumentList := by
  have isField : list.field = some .arguments := eq_of_beq (List.find?_some found :)
  apply ((of_decide_eq_true (check_tree_of_everywhere regular :)).2 creates).2
  · exact tree_mem_of_mem_children (mem_children_of_child found)
  · exact isField

theorem eq_of_argument_lists {list other : Node} (isList : list.parent? = some call)
    (isOther : other.parent? = some call) (kind : list.kind = .argumentList)
    (otherKind : other.kind = .argumentList) : list = other := by
  have atMostOne : (call.children.filter fun child => child.kind == .argumentList).length ≤ 1 := by
    have counted := ((of_decide_eq_true (check_tree_of_everywhere regular :)).2 creates).1
    rw [← map_tree_children, List.filter_map, List.length_map] at counted
    exact counted
  have first : list ∈ call.children.filter fun child => child.kind == .argumentList :=
    List.mem_filter.mpr ⟨mem_children_of_parent isList, beq_iff_eq.mpr kind⟩
  have second : other ∈ call.children.filter fun child => child.kind == .argumentList :=
    List.mem_filter.mpr ⟨mem_children_of_parent isOther, beq_iff_eq.mpr otherKind⟩
  generalize (call.children.filter fun child => child.kind == .argumentList) = lists at *
  cases lists with
  | nil => cases first
  | cons only rest =>
      cases rest with
      | nil => rw [List.mem_singleton.mp first, List.mem_singleton.mp second]
      | cons _ _ => simp at atMostOne

theorem argument_list_iff {list : Node} :
    (call.child? .arguments).or (call.partOf? .argumentList) = some list ↔
      list.parent? = some call ∧ list.kind = .argumentList := by
  constructor
  · intro found
    rcases Option.or_eq_some_iff.mp found with byField | ⟨-, byKind⟩
    · have isParent := parent_of_mem_children (mem_children_of_child byField)
      exact ⟨isParent, kind_of_child_arguments regular creates byField⟩
    · exact ⟨parent_of_part_of byKind, kind_of_part_of byKind⟩
  · rintro ⟨isParent, kind⟩
    apply Option.or_eq_some_iff.mpr
    cases byField : call.child? .arguments with
    | some marked =>
        have isMarked := parent_of_mem_children (mem_children_of_child byField)
        have markedKind := kind_of_child_arguments regular creates byField
        rw [eq_of_argument_lists regular creates isMarked isParent markedKind kind]
        exact Or.inl rfl
    | none =>
        refine Or.inr ⟨rfl, ?_⟩
        rw [← top_of_parent isParent] at regular
        have isPart := mem_parts_of_is_regular regular isParent (Or.inl kind)
        rw [top_of_parent isParent] at regular
        cases byKind : call.partOf? .argumentList with
        | none => exact absurd kind (by simpa using List.find?_eq_none.mp byKind list isPart)
        | some first =>
            rw [eq_of_argument_lists regular creates (parent_of_part_of byKind) isParent
              (kind_of_part_of byKind) kind]

theorem mem_arguments_iff {argument : Node} :
    argument ∈ call.arguments ↔
      argument.kind = .argument ∧ ∃ list, argument.parent? = some list ∧
        list.kind = .argumentList ∧ list.parent? = some call := by
  constructor
  · intro member
    unfold arguments at member
    split at member
    · next list found =>
        obtain ⟨isParent, kind⟩ := (argument_list_iff regular creates).mp found
        obtain ⟨isPart, isArgument⟩ := List.mem_filter.mp member
        exact ⟨eq_of_beq isArgument, list, parent_of_mem_parts isPart, kind, isParent⟩
    · cases member
  · rintro ⟨isArgument, list, inList, kind, isParent⟩
    have found := (argument_list_iff regular creates).mpr ⟨isParent, kind⟩
    rw [← top_of_parent isParent, ← top_of_parent inList] at regular
    have isPart := mem_parts_of_is_regular regular inList (Or.inr isArgument)
    rw [arguments, found]
    exact List.mem_filter.mpr ⟨isPart, beq_iff_eq.mpr isArgument⟩

end Regular

theorem parent_of_argument_value {argument value : Node}
    (found : argument.argumentValue? = some value) : value.parent? = some argument :=
  parent_of_mem_children (mem_children_of_last_part found)

theorem argument_owner_eq_some_iff {value owner : Node} :
    value.argumentOwner? = some owner ↔
      owner.kind.isCreation = true ∧ ∃ argument list : Node,
        argument.argumentValue? = some value ∧ argument.kind = .argument ∧
        argument.parent? = some list ∧ list.kind = .argumentList ∧
        list.parent? = some owner := by
  constructor
  · intro found
    obtain ⟨argument, isArgument, found⟩ := Option.bind_eq_some_iff.mp found
    obtain ⟨passed, isPassed, found⟩ := Option.bind_eq_some_iff.mp found
    obtain ⟨list, isList, found⟩ := Option.bind_eq_some_iff.mp found
    obtain ⟨isOwner, creates⟩ := Option.filter_eq_some_iff.mp found
    obtain ⟨isParent, kind⟩ := parent_of_eq_some_iff.mp isArgument
    obtain ⟨inList, listKind⟩ := parent_of_eq_some_iff.mp isList
    have isValue : argument.argumentValue? = some value :=
      eq_some_of_filter_same isParent (fun other => parent_of_argument_value) isPassed
    exact ⟨creates, argument, list, isValue, kind, inList, listKind, isOwner⟩
  · rintro ⟨creates, argument, list, isValue, kind, inList, listKind, isOwner⟩
    have isArgument := parent_of_eq_some_iff.mpr ⟨parent_of_argument_value isValue, kind⟩
    have isList := parent_of_eq_some_iff.mpr ⟨inList, listKind⟩
    simp [argumentOwner?, isArgument, isValue, Option.filter_some, same_self, isList, isOwner,
      creates]

theorem argument_owner_eq_none_of_ne_value {node argument : Node}
    (isParent : node.parent? = some argument) (notValue : argument.argumentValue? ≠ some node) :
    node.argumentOwner? = none := by
  cases found : node.argumentOwner? with
  | none => rfl
  | some owner =>
      obtain ⟨-, other, -, isValue, -⟩ := argument_owner_eq_some_iff.mp found
      cases isParent.symm.trans (parent_of_argument_value isValue)
      exact absurd isValue notValue

/-- Where calls are regular, the two ways are inverse. -/
theorem argument_owner_iff_argument {value owner : Node}
    (regular : owner.top.everywhere Tree.isRegular = true) :
    value.argumentOwner? = some owner ↔ owner.kind.isCreation = true ∧
      ∃ argument ∈ owner.arguments, argument.argumentValue? = some value := by
  rw [argument_owner_eq_some_iff]
  constructor
  · rintro ⟨creates, argument, list, isValue, kind, inList, listKind, isOwner⟩
    have member := (mem_arguments_iff regular creates).mpr ⟨kind, list, inList, listKind, isOwner⟩
    exact ⟨creates, argument, member, isValue⟩
  · rintro ⟨creates, argument, member, isValue⟩
    obtain ⟨kind, list, inList, listKind, isOwner⟩ := (mem_arguments_iff regular creates).mp member
    exact ⟨creates, argument, list, isValue, kind, inList, listKind, isOwner⟩

end Node

end ReleaseAudit.Source
