import ReleaseAudit.Proofs.Source.Order
import ReleaseAudit.Proofs.Verdict.HandedBack
import ReleaseAudit.Verdict.Release

/-!
# Names under wrappers and in arguments

The search for a local goes down: through wrappers to a name, and through the
arguments of a call to what each of them passes. The placement of a value goes
up, out of the wrappers and on to the call. Both take the same steps, so a name
that is found below stands where the expression stands that was asked about,
and a call receives exactly the values that name it as their owner.
-/

namespace ReleaseAudit.Source.Node

set_option autoImplicit false

theorem wrapped_eq_some_iff_climb {wrapper inner : Node} :
    wrapper.wrapped? = some inner ↔
      inner.parent? = some wrapper ∧ passesValue wrapper inner = true ∧
        wrapper.OnlyValue inner := by
  constructor
  · intro found
    have isParent := parent_of_mem_children (mem_children_of_wrapped found)
    exact ⟨isParent, (wrapped_eq_some_iff isParent).mp found⟩
  · rintro ⟨isParent, climbs⟩
    exact (wrapped_eq_some_iff isParent).mpr climbs

theorem value_root_unwrap_value (node : Node) : node.unwrapValue.valueRoot = node.valueRoot := by
  fun_induction unwrapValue node with
  | case1 node absent => rfl
  | case2 node inner found shorter ih =>
      obtain ⟨isParent, passes, -⟩ := wrapped_eq_some_iff_climb.mp found
      rw [ih, value_root_of_passes isParent passes]

theorem unwrap_value_unwrap_value (node : Node) :
    node.unwrapValue.unwrapValue = node.unwrapValue := by
  fun_induction unwrapValue node with
  | case1 node absent =>
      rw [unwrapValue]
      split
      · rfl
      · next inner found =>
          rw [absent] at found
          cases found
  | case2 node inner found shorter ih => exact ih

theorem refers_to_unwrap_value (node : Node) (name : String) :
    node.unwrapValue.refersTo name = node.refersTo name := by
  unfold refersTo
  rw [unwrap_value_unwrap_value]

theorem kind_of_refers_to {node : Node} {name : String} (refers : node.refersTo name = true) :
    node.unwrapValue.kind = .identifier ∨ node.unwrapValue.kind = .memberAccessExpression := by
  unfold refersTo at refers
  dsimp only at refers
  split at refers
  · next kind => exact Or.inl kind
  · next kind => exact Or.inr kind
  · cases refers

/-- The second value is the first, or a call under the wrappers of the first receives it, perhaps
through further calls. -/
inductive HandsOn : (value passed : Node) → Prop
  | self (value : Node) : HandsOn value value
  | argument {value argument received passed : Node}
      (creates : value.unwrapValue.kind.isCreation = true)
      (member : argument ∈ value.unwrapValue.arguments)
      (isValue : argument.argumentValue? = some received) (further : HandsOn received passed) :
      HandsOn value passed

theorem hands_back_iff_hands_on {value : Node} {name : String} :
    value.handsBack name = true ↔
      ∃ passed, HandsOn value passed ∧ passed.unwrapValue.kind = .identifier ∧
        passed.unwrapValue.text = name := by
  constructor
  · intro handed
    induction size : value.tree.size using Nat.strongRecOn generalizing value with
    | _ count ih =>
        rcases hands_back_iff.mp handed with ⟨kind, text⟩ | ⟨creates, argument, member, received,
          isValue, further⟩
        · exact ⟨value, .self value, kind, text⟩
        · have smaller : received.tree.size < count := by
            have first := size_lt_of_argument_value isValue
            have second := size_lt_of_mem_arguments member
            have third := size_unwrap_value_le value
            omega
          obtain ⟨passed, handsOn, named⟩ := ih _ smaller further rfl
          exact ⟨passed, .argument creates member isValue handsOn, named⟩
  · rintro ⟨passed, handsOn, kind, text⟩
    induction handsOn with
    | self value => exact hands_back_iff.mpr (Or.inl ⟨kind, text⟩)
    | @argument value argument received passed creates member isValue _ ih =>
        exact hands_back_iff.mpr
          (Or.inr ⟨creates, argument, member, received, isValue, ih kind text⟩)

def argumentLabel? (argument : Node) : Option Node :=
  (argument.child? .name).or <| (argument.partOf? .nameColon).or <|
    if argument.hasToken ":" && 1 < argument.parts.length then argument.firstPart? else none

/-- What a label says, without the colon where that is part of it. -/
def labelText (argument label : Node) : String :=
  if (argument.child? .name).isNone && label.kind == .nameColon then
    Text.trim (Text.dropEndMarks ':' label.text)
  else label.text

theorem argument_name_eq_label (argument : Node) :
    argument.argumentName? = argument.argumentLabel?.map argument.labelText := by
  unfold argumentName? argumentLabel?
  cases byField : argument.child? .name with
  | some label => simp [labelText, byField]
  | none =>
      cases byKind : argument.partOf? .nameColon with
      | some label => simp [labelText, byField, kind_of_part_of byKind]
      | none =>
          -- the first part is no such label, or it would have been found by its kind
          have unlike : ∀ part ∈ argument.parts, (part.kind == .nameColon) = false := by
            simpa using List.find?_eq_none.mp byKind
          unfold firstPart?
          cases listed : argument.parts with
          | nil => simp
          | cons label rest =>
              have plain := unlike label (listed ▸ List.mem_cons_self)
              cases rest with
              | nil => simp
              | cons _ _ =>
                  by_cases colon : argument.hasToken ":" = true <;>
                    simp [colon, labelText, plain]

theorem parent_of_argument_label {argument label : Node}
    (found : argument.argumentLabel? = some label) : label.parent? = some argument := by
  rcases Option.or_eq_some_iff.mp found with byField | ⟨-, found⟩
  · exact parent_of_mem_children (mem_children_of_child byField)
  · rcases Option.or_eq_some_iff.mp found with byKind | ⟨-, first⟩
    · exact parent_of_part_of byKind
    · split at first
      · exact parent_of_mem_children (mem_children_of_first_part first)
      · cases first

theorem pairwise_parts (node : Node) :
    node.parts.Pairwise fun left right => left.place < right.place := by
  have inOrder := node.pairwise_children.imp fun apart => apart.lt
  exact inOrder.sublist (List.filter_sublist.trans List.filter_sublist)

theorem argument_value_ne_of_later {argument label part : Node} (isPart : part ∈ argument.parts)
    (later : label.place < part.place) : argument.argumentValue? ≠ some label := by
  intro isValue
  have inOrder := argument.pairwise_parts
  obtain ⟨before, split⟩ := List.getLast?_eq_some_iff.mp isValue
  rw [split] at isPart inOrder
  rcases List.mem_append.mp isPart with earlier | last
  · have less := (List.pairwise_append.mp inOrder).2.2 part earlier label List.mem_cons_self
    exact List.lt_irrefl _ (List.lt_trans less later)
  · rw [List.mem_singleton.mp last] at later
    exact List.lt_irrefl _ later

end ReleaseAudit.Source.Node

namespace ReleaseAudit.Verdict

set_option autoImplicit false

open Source (Node Tree)
open Source.Sample (branch invocationOf)

namespace Audit

variable (audit : Audit)

theorem place_of_not_invocation {node : Node} (notCall : node.kind ≠ .invocationExpression) :
    audit.place node = audit.placeValue node.valueRoot := by
  have other : (node.kind == .invocationExpression) = false := by simpa using notCall
  simp [place, other]

/-- Whatever is no call is placed with the wrappers around it. -/
theorem place_unwrap_value {node : Node}
    (notCall : node.unwrapValue.kind ≠ .invocationExpression) :
    audit.place node.unwrapValue = audit.place node := by
  have outerNotCall : node.kind ≠ .invocationExpression := by
    intro kind
    rw [Node.unwrap_value_of_not_wrapper (by rw [kind]; rfl)] at notCall
    exact notCall kind
  rw [audit.place_of_not_invocation notCall, audit.place_of_not_invocation outerNotCall,
    node.value_root_unwrap_value]

end Audit

/-- Climbing out of wrappers undoes going down into them. So a name that is found under wrappers,
by itself or as what a call hands back, is placed like the wrapped expression. -/
theorem unwrap_value_same_context (node : Node) :
    node.unwrapValue.valueRoot = node.valueRoot ∧
    (∀ wrapper inner : Node, wrapper.wrapped? = some inner ↔ inner.parent? = some wrapper ∧
      Node.passesValue wrapper inner = true ∧ wrapper.OnlyValue inner) ∧
    (∀ name, node.refersTo name = true → node.unwrapValue.refersTo name = true ∧
      ∀ audit : Audit, audit.place node.unwrapValue = audit.place node) ∧
    ∀ name, node.handsBack name = true ↔
      ∃ passed, Node.HandsOn node passed ∧ passed.unwrapValue.kind = .identifier ∧
        passed.unwrapValue.text = name ∧ passed.unwrapValue.valueRoot = passed.valueRoot ∧
        ∀ audit : Audit, audit.place passed.unwrapValue = audit.place passed := by
  refine ⟨node.value_root_unwrap_value, ?_, ?_, ?_⟩
  · intro wrapper inner
    exact Node.wrapped_eq_some_iff_climb
  · intro name refers
    have notCall : node.unwrapValue.kind ≠ .invocationExpression := by
      rcases Node.kind_of_refers_to refers with kind | kind <;> simp [kind]
    have atName := (node.refers_to_unwrap_value name).trans refers
    exact ⟨atName, fun audit => audit.place_unwrap_value notCall⟩
  · intro name
    rw [Node.hands_back_iff_hands_on]
    constructor
    · rintro ⟨passed, handsOn, kind, text⟩
      refine ⟨passed, handsOn, kind, text, passed.value_root_unwrap_value, fun audit => ?_⟩
      exact audit.place_unwrap_value (by simp [kind])
    · rintro ⟨passed, handsOn, kind, text, -⟩
      exact ⟨passed, handsOn, kind, text⟩

/-- `(T)(s)` -/
def castTree : Tree :=
  branch .castExpression none
    [branch .identifier (some .type) [],
      branch .parenthesizedExpression (some .value) [nameTree]]

theorem unwrap_value_same_context_cast :
    (Node.root castTree).refersTo "s" = true ∧
    (∀ audit : Audit, audit.place (Node.root castTree).unwrapValue =
      audit.place (.root castTree)) ∧
    (operandIn wrappedTree).handsBack "s" = true ∧
    ∃ passed, Node.HandsOn (operandIn wrappedTree) passed ∧ passed.unwrapValue.text = "s" ∧
      passed.unwrapValue.valueRoot = passed.valueRoot := by
  have cast := (unwrap_value_same_context (.root castTree)).2.2.1
  have returned := (unwrap_value_same_context (operandIn wrappedTree)).2.2.2
  have refers : (Node.root castTree).refersTo "s" = true := by decide +kernel
  have handed : (operandIn wrappedTree).handsBack "s" = true := by decide +kernel
  obtain ⟨passed, handsOn, -, text, sameRoot, -⟩ := (returned "s").mp handed
  exact ⟨refers, (cast "s" refers).2, handed, passed, handsOn, text, sameRoot⟩

/-- A call receives exactly the values that name it as their owner, each in one argument. Labels
have no owner, and the local that a call receives is found from both sides. -/
theorem argument_owner_iff_mem_arguments (value owner : Node)
    (regular : owner.top.everywhere Tree.isRegular = true) :
    (value.argumentOwner? = some owner ↔ owner.kind.isCreation = true ∧
      ∃ argument ∈ owner.arguments, argument.argumentValue? = some value) ∧
    (∀ first ∈ owner.arguments, ∀ second ∈ owner.arguments,
      first.argumentValue? = some value → second.argumentValue? = some value →
      first = second) ∧
    (∀ (argument : Node) (name : String), argument.argumentName? = some name →
      ∃ label, argument.argumentLabel? = some label ∧ argument.labelText label = name ∧
        ((∃ part ∈ argument.parts, label.place < part.place) → label.argumentOwner? = none)) ∧
    ∀ name, owner.kind.isCreation = true →
      (Audit.passesTo owner name = true ↔
        ∃ passed : Node, passed.argumentOwner? = some owner ∧ passed.refersTo name = true) := by
  refine ⟨Node.argument_owner_iff_argument regular, ?_, ?_, ?_⟩
  · intro first _ second _ isFirst isSecond
    have parents := (Node.parent_of_argument_value isFirst).symm.trans
      (Node.parent_of_argument_value isSecond)
    exact Option.some.inj parents
  · intro argument name isName
    rw [argument.argument_name_eq_label] at isName
    obtain ⟨label, isLabel, text⟩ := Option.map_eq_some_iff.mp isName
    refine ⟨label, isLabel, text, ?_⟩
    rintro ⟨part, isPart, later⟩
    exact Node.argument_owner_eq_none_of_ne_value (Node.parent_of_argument_label isLabel)
      (Node.argument_value_ne_of_later isPart later)
  · intro name creates
    unfold Audit.passesTo
    rw [List.any_eq_true]
    constructor
    · rintro ⟨passed, received, refers⟩
      obtain ⟨argument, member, isValue⟩ := List.mem_filterMap.mp received
      have isOwner := (Node.argument_owner_iff_argument regular).mpr
        ⟨creates, argument, member, isValue⟩
      exact ⟨passed, isOwner, refers⟩
    · rintro ⟨passed, isOwner, refers⟩
      obtain ⟨-, argument, member, isValue⟩ := (Node.argument_owner_iff_argument regular).mp isOwner
      exact ⟨passed, List.mem_filterMap.mpr ⟨argument, member, isValue⟩, refers⟩

/-- `s: /* */ s` -/
def labelledArgument : Tree :=
  branch .argument none
    [.node ⟨.identifier, true, some .name, 0, 0, "s"⟩ [],
      .node ⟨.other ":", false, none, 0, 0, ":"⟩ [], branch .comment none [], nameTree]

/-- `F(s: /* */ s)` -/
def labelledCall : Tree :=
  invocationOf [labelledArgument]

def argumentNode : Node :=
  ⟨labelledArgument, [⟨branch .argumentList (some .arguments) [labelledArgument], 0⟩,
    ⟨labelledCall, 1⟩], rfl, rfl, trivial⟩

def passedName : Node :=
  ⟨nameTree, ⟨labelledArgument, 3⟩ :: argumentNode.above, rfl, argumentNode.linked⟩

theorem argument_owner_iff_mem_arguments_labelled :
    passedName.argumentOwner? = some (.root labelledCall) ∧
    Audit.passesTo (.root labelledCall) "s" = true ∧
    argumentNode.argumentName? = some "s" ∧
    ∃ label, argumentNode.argumentLabel? = some label ∧ label.argumentOwner? = none := by
  obtain ⟨owner, -, labels, received⟩ :=
    argument_owner_iff_mem_arguments passedName (.root labelledCall) (by decide +kernel)
  have isOwner : passedName.argumentOwner? = some (.root labelledCall) :=
    owner.mpr ⟨rfl, argumentNode, List.mem_cons_self, rfl⟩
  have refers : passedName.refersTo "s" = true := by decide +kernel
  have isName : argumentNode.argumentName? = some "s" := rfl
  obtain ⟨label, isLabel, -, unowned⟩ := labels argumentNode "s" isName
  have isReceived := (received "s" rfl).mpr ⟨passedName, isOwner, refers⟩
  refine ⟨isOwner, isReceived, isName, label, isLabel, unowned ?_⟩
  cases isLabel
  exact ⟨passedName, List.mem_cons_of_mem _ List.mem_cons_self, by decide +kernel⟩

end ReleaseAudit.Verdict
