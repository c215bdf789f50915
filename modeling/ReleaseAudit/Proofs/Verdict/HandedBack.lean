import ReleaseAudit.Proofs.Source.Argument
import ReleaseAudit.Proofs.Source.Sample
import ReleaseAudit.Proofs.Verdict.Suppression

/-!
# Locals that are handed back

Whether a `return` hands a local back is asked going down from its operand;
whether a creation is returned is asked going up from the creation. The two
agree on every way that stays clear of branches: the climb leaves a `?:` or a
`??` from every branch, and nothing goes down into them.
-/

namespace ReleaseAudit.Source.Node

set_option autoImplicit false

/-- Leaving wrappers, and then going on from the call that receives the value, one comes to the
value of the statement. -/
inductive ClimbsTo (statement : Node) : (node : Node) → Prop
  | operand {node : Node} (isParent : node.valueRoot.parent? = some statement) :
      ClimbsTo statement node
  | argument {node owner : Node} (isOwner : node.valueRoot.argumentOwner? = some owner)
      (further : ClimbsTo statement owner) : ClimbsTo statement node

/-- Below the statement, what passes the value on has it as its only inner value. -/
def Unbranched (statement node : Node) : Prop :=
  ∀ child parent : Node, node.Within child → child.parent? = some parent →
    statement ∈ parent.ancestors → passesValue parent child = true → parent.OnlyValue child

theorem within_argument_owner {value owner : Node} (found : value.argumentOwner? = some owner) :
    value.Within owner := by
  obtain ⟨-, argument, list, isValue, -, inList, -, isOwner⟩ := argument_owner_eq_some_iff.mp found
  apply Within.parent (parent_of_argument_value isValue)
  apply Within.parent inList
  exact Within.parent isOwner (Within.self owner)

theorem ClimbsTo.of_value_root {statement left right : Node}
    (same : left.valueRoot = right.valueRoot) (climbs : ClimbsTo statement right) :
    ClimbsTo statement left := by
  cases climbs with
  | operand isParent => exact .operand (same ▸ isParent)
  | argument isOwner further => exact .argument (same ▸ isOwner) further

theorem ClimbsTo.mem_ancestors {statement node : Node} (climbs : ClimbsTo statement node) :
    statement ∈ node.ancestors := by
  induction climbs with
  | @operand node isParent =>
      apply (Within.value_root node).mem_ancestors
      rw [ancestors_of_parent isParent]
      exact List.mem_cons_self
  | @argument node owner isOwner _ ih =>
      exact ((Within.value_root node).trans (within_argument_owner isOwner)).mem_ancestors ih

theorem Unbranched.of_within {statement node outer : Node} (inside : node.Within outer)
    (unbranched : Unbranched statement node) : Unbranched statement outer := by
  intro child parent above
  exact unbranched child parent (inside.trans above)

theorem Unbranched.of_parent {statement node parent : Node}
    (isParent : node.parent? = some parent)
    (clear : passesValue parent node = true → parent.OnlyValue node)
    (unbranched : Unbranched statement parent) : Unbranched statement node := by
  intro child outer inside isOuter below
  rcases inside.eq_or_parent isParent with rfl | above
  · cases isParent.symm.trans isOuter
    exact clear
  · exact unbranched child outer above isOuter below

theorem Unbranched.of_not_passes {statement node parent : Node}
    (isParent : node.parent? = some parent) (outside : isWrapper parent.kind = false)
    (unbranched : Unbranched statement parent) : Unbranched statement node := by
  apply unbranched.of_parent isParent
  intro passes
  rw [passes_value_eq_false outside] at passes
  cases passes

theorem Unbranched.of_child {statement node : Node} (isParent : node.parent? = some statement) :
    Unbranched statement node := by
  intro child parent inside isOuter below
  have least := depth_lt_of_mem_ancestors_from below
  have upper := inside.depth_le
  have own := depth_of_parent isParent
  have outer := depth_of_parent isOuter
  unfold depth at *
  omega

theorem is_wrapper_eq_false_of_is_creation {kind : Kind} (creates : kind.isCreation = true) :
    isWrapper kind = false := by
  unfold Kind.isCreation at creates
  split at creates
  · rfl
  · rfl
  · rfl
  · cases creates

theorem wrapped_eq_none {node : Node} (outside : isWrapper node.kind = false) :
    node.wrapped? = none := by
  cases found : node.wrapped? with
  | none => rfl
  | some inner =>
      have isParent := parent_of_mem_children (mem_children_of_wrapped found)
      have passes := ((wrapped_eq_some_iff isParent).mp found).1
      rw [passes_value_eq_false outside] at passes
      cases passes

theorem unwrap_value_of_wrapped {node inner : Node} (found : node.wrapped? = some inner) :
    node.unwrapValue = inner.unwrapValue := by
  rw [unwrapValue]
  split
  · next absent =>
      rw [absent] at found
      cases found
  · next other present =>
      cases found.symm.trans present
      rfl

theorem unwrap_value_of_not_wrapper {node : Node} (outside : isWrapper node.kind = false) :
    node.unwrapValue = node := by
  rw [unwrapValue]
  split
  · rfl
  · next inner found =>
      rw [wrapped_eq_none outside] at found
      cases found

theorem hands_back_iff {value : Node} {name : String} :
    value.handsBack name = true ↔
      value.unwrapValue.kind = .identifier ∧ value.unwrapValue.text = name ∨
        value.unwrapValue.kind.isCreation = true ∧
          ∃ argument ∈ value.unwrapValue.arguments, ∃ passed,
            argument.argumentValue? = some passed ∧ passed.handsBack name = true := by
  rw [handsBack]
  dsimp only
  split
  · next isName =>
      simp [eq_of_beq isName, Kind.isCreation]
  · next notName =>
      have other : value.unwrapValue.kind ≠ .identifier := by simpa using notName
      split
      · next creates =>
          constructor
          · intro found
            obtain ⟨⟨argument, member⟩, -, handed⟩ := List.any_eq_true.mp found
            split at handed
            · next passed isValue => exact Or.inr ⟨creates, argument, member, passed, isValue,
              handed⟩
            · cases handed
          · rintro (⟨isName, -⟩ | ⟨-, argument, member, passed, isValue, handed⟩)
            · exact absurd isName other
            · apply List.any_eq_true.mpr
              refine ⟨⟨argument, member⟩, List.mem_attach _ _, ?_⟩
              split
              · next found present =>
                  cases isValue.symm.trans present
                  exact handed
              · next absent =>
                  rw [isValue] at absent
                  cases absent
      · next notCall =>
          constructor
          · intro found
            cases found
          · rintro (⟨isName, -⟩ | ⟨creates, -⟩)
            · exact absurd isName other
            · exact absurd creates notCall

theorem hands_back_of_wrapped {node inner : Node} (found : node.wrapped? = some inner)
    {name : String} : node.handsBack name = true ↔ inner.handsBack name = true := by
  rw [hands_back_iff, hands_back_iff, unwrap_value_of_wrapped found]

section

variable {statement : Node}

theorem unwrap_value_climbs_to {value : Node} (climbs : ClimbsTo statement value)
    (unbranched : Unbranched statement value) :
    value.unwrapValue.Within value ∧ ClimbsTo statement value.unwrapValue ∧
      Unbranched statement value.unwrapValue := by
  fun_induction unwrapValue value with
  | case1 value absent => exact ⟨Within.self value, climbs, unbranched⟩
  | case2 value inner found shorter ih =>
      have isParent := parent_of_mem_children (mem_children_of_wrapped found)
      obtain ⟨passes, only⟩ := (wrapped_eq_some_iff isParent).mp found
      have stepped := ih (climbs.of_value_root (value_root_of_passes isParent passes))
        (unbranched.of_parent isParent fun _ => only)
      exact ⟨stepped.1.trans (Within.parent isParent (Within.self value)), stepped.2⟩

theorem passed_climbs_to {call argument passed : Node}
    (regular : call.top.everywhere Tree.isRegular = true) (creates : call.kind.isCreation = true)
    (member : argument ∈ call.arguments) (isValue : argument.argumentValue? = some passed)
    (climbs : ClimbsTo statement call) (unbranched : Unbranched statement call) :
    passed.Within call ∧ ClimbsTo statement passed ∧ Unbranched statement passed := by
  obtain ⟨kind, list, inList, listKind, isParent⟩ := (mem_arguments_iff regular creates).mp member
  have inArgument := parent_of_argument_value isValue
  have isOwner := (argument_owner_iff_argument regular).mpr ⟨creates, argument, member, isValue⟩
  have notWrapper : isWrapper argument.kind = false := by
    rw [kind]
    rfl
  have stays := value_root_of_not_passes inArgument (passes_value_eq_false notWrapper)
  refine ⟨within_argument_owner isOwner, .argument (stays.symm ▸ isOwner) climbs, ?_⟩
  apply Unbranched.of_not_passes inArgument notWrapper
  apply Unbranched.of_not_passes inList (by rw [listKind]; rfl)
  exact unbranched.of_not_passes isParent (is_wrapper_eq_false_of_is_creation creates)

theorem exists_of_hands_back {value : Node} {name : String}
    (regular : value.top.everywhere Tree.isRegular = true) (climbs : ClimbsTo statement value)
    (unbranched : Unbranched statement value) (found : value.handsBack name = true) :
    ∃ holder : Node, holder.kind = .identifier ∧ holder.text = name ∧ holder.Within value ∧
      ClimbsTo statement holder ∧ Unbranched statement holder := by
  induction size : value.tree.size using Nat.strongRecOn generalizing value with
  | _ count ih =>
      obtain ⟨inside, innerClimbs, innerClear⟩ := unwrap_value_climbs_to climbs unbranched
      rcases hands_back_iff.mp found with ⟨kind, text⟩ |
        ⟨creates, argument, member, passed, isValue, handed⟩
      · exact ⟨value.unwrapValue, kind, text, inside, innerClimbs, innerClear⟩
      · rw [(Within.iff_place.mp inside).1] at regular
        obtain ⟨below, passedClimbs, passedClear⟩ :=
          passed_climbs_to regular creates member isValue innerClimbs innerClear
        rw [(Within.iff_place.mp below).1] at regular
        have smaller : passed.tree.size < count := by
          have first := size_lt_of_argument_value isValue
          have second := size_lt_of_mem_arguments member
          have third := size_unwrap_value_le value
          omega
        obtain ⟨holder, kind, text, within, further⟩ :=
          ih passed.tree.size smaller regular passedClimbs passedClear handed rfl
        exact ⟨holder, kind, text, (within.trans below).trans inside, further⟩

theorem hands_back_value_root {node : Node} {name : String}
    (isReturn : statement.kind = .returnStatement) (below : statement ∈ node.ancestors)
    (unbranched : Unbranched statement node) (found : node.handsBack name = true) :
    node.valueRoot.handsBack name = true := by
  induction depth : node.depth using Nat.strongRecOn generalizing node with
  | _ count ih =>
      cases isParent : node.parent? with
      | none =>
          obtain ⟨tree, above, linked⟩ := node
          cases above with
          | nil => cases below
          | cons frame above => cases isParent
      | some parent =>
          cases passes : passesValue parent node with
          | false =>
              rw [value_root_of_not_passes isParent passes]
              exact found
          | true =>
              rw [value_root_of_passes isParent passes]
              -- The statement is no wrapper, so the parent is still below it.
              have further : statement ∈ parent.ancestors := by
                rw [ancestors_of_parent isParent] at below
                rcases List.mem_cons.mp below with rfl | above
                · rw [passes_value_eq_false (by rw [isReturn]; rfl)] at passes
                  cases passes
                · exact above
              have only := unbranched node parent (Within.self node) isParent further passes
              have isWrapped := (wrapped_eq_some_iff isParent).mpr ⟨passes, only⟩
              have outside := Within.parent isParent (Within.self parent)
              have higher := depth_of_parent isParent
              exact ih parent.depth (by omega) further (unbranched.of_within outside)
                ((hands_back_of_wrapped isWrapped).mpr found) rfl

theorem hands_back_argument_owner {value owner : Node} {name : String}
    (regular : owner.top.everywhere Tree.isRegular = true)
    (isOwner : value.argumentOwner? = some owner) (found : value.handsBack name = true) :
    owner.handsBack name = true := by
  obtain ⟨creates, argument, member, isValue⟩ := (argument_owner_iff_argument regular).mp isOwner
  have stays := unwrap_value_of_not_wrapper (is_wrapper_eq_false_of_is_creation creates)
  apply hands_back_iff.mpr
  rw [stays]
  exact Or.inr ⟨creates, argument, member, value, isValue, found⟩

theorem hands_back_of_climbs_to {operand holder node : Node} {name : String}
    (isReturn : statement.kind = .returnStatement) (isOperand : operand.parent? = some statement)
    (regular : statement.top.everywhere Tree.isRegular = true) (within : holder.Within operand)
    (climbs : ClimbsTo statement node) (inside : holder.Within node)
    (unbranched : Unbranched statement node) (found : node.handsBack name = true) :
    operand.handsBack name = true := by
  induction climbs with
  | @operand node isParent =>
      have below := (ClimbsTo.operand isParent).mem_ancestors
      have here : node.valueRoot = operand :=
        (inside.trans (Within.value_root node)).child_unique within isParent isOperand
      rw [← here]
      exact hands_back_value_root isReturn below unbranched found
  | @argument node owner isOwner further ih =>
      have below := (ClimbsTo.argument isOwner further).mem_ancestors
      have outside := (Within.value_root node).trans (within_argument_owner isOwner)
      have atRoot := hands_back_value_root isReturn below unbranched found
      rw [top_of_mem_ancestors further.mem_ancestors] at regular
      apply ih (inside.trans outside) (unbranched.of_within outside)
      exact hands_back_argument_owner regular isOwner atRoot

end

end ReleaseAudit.Source.Node

namespace ReleaseAudit.Verdict

set_option autoImplicit false

open Source (Node Tree)
open Source.Sample (branch)

theorem returned_as_argument_of_returned {root owner : Node} {placement : Placement}
    (isOwner : root.argumentOwner? = some owner)
    (isReturned : returned? owner.valueRoot = some placement)
    (notGetter : placement.isGetterReturn = false) :
    returnedAsArgument? root = some placement := by
  rw [returnedAsArgument?]
  split
  · next absent =>
      rw [isOwner] at absent
      cases absent
  · next other found =>
      cases isOwner.symm.trans found
      simp [isReturned, notGetter]

theorem returned_as_argument_of_not_returned {root owner : Node}
    (isOwner : root.argumentOwner? = some owner) (notReturned : returned? owner.valueRoot = none) :
    returnedAsArgument? root = returnedAsArgument? owner.valueRoot := by
  rw [returnedAsArgument?]
  split
  · next absent =>
      rw [isOwner] at absent
      cases absent
  · next other found =>
      cases isOwner.symm.trans found
      simp [notReturned]

/-- What climbs to a `return` is placed as its value. -/
theorem returned_of_climbs_to {statement node : Node} (isReturn : statement.kind = .returnStatement)
    (notGetter : (returnedBy statement).isGetterReturn = false)
    (climbs : Node.ClimbsTo statement node) :
    (returned? node.valueRoot).or (returnedAsArgument? node.valueRoot) =
      some (returnedBy statement) := by
  induction climbs with
  | operand isParent => simp [returned?, isParent, isReturn]
  | @argument node owner isOwner further ih =>
      obtain ⟨parent, isParent, kind⟩ := Node.kind_of_argument_owner isOwner
      have notReturned := returned_eq_none isParent (by simp [kind]) (by simp [kind])
        (by simp [kind])
      rw [notReturned, Option.none_or]
      cases above : returned? owner.valueRoot with
      | none =>
          rw [returned_as_argument_of_not_returned isOwner above]
          simpa [above] using ih
      | some placement =>
          have same : placement = returnedBy statement := by simpa [above] using ih
          rw [← same] at notGetter ⊢
          exact returned_as_argument_of_returned isOwner above notGetter

namespace Audit

variable (audit : Audit)

theorem place_value_of_climbs_to {statement node : Node}
    (isReturn : statement.kind = .returnStatement)
    (notGetter : (returnedBy statement).isGetterReturn = false)
    (climbs : Node.ClimbsTo statement node) :
    audit.placeValue node.valueRoot = returnedBy statement := by
  have placed := returned_of_climbs_to isReturn notGetter climbs
  have notCalled : node.valueRoot.invocationOnReceiver? = none := by
    cases climbs with
    | operand isParent =>
        exact Node.invocation_on_receiver_eq_none isParent (by simp [isReturn]) (by simp [isReturn])
    | argument isOwner _ =>
        obtain ⟨parent, isParent, kind⟩ := Node.kind_of_argument_owner isOwner
        exact Node.invocation_on_receiver_eq_none isParent (by simp [kind]) (by simp [kind])
  unfold placeValue
  rw [notCalled, ← Option.or_assoc, placed]
  simp

theorem place_value_of_returned_later {root : Node} {name : String}
    (stored : audit.KeptInLocal root name) (later : audit.returnedLater root name = true)
    (notHeader : audit.placeValue root ≠ .usingHeader) : audit.placeValue root = .returnLater := by
  rcases audit.place_value_of_kept_in_local stored with header | ⟨holder, -, placed | placed⟩
  · exact absurd header notHeader
  · rw [placed, placeLocal, if_pos later]
  · rw [placed, placeLocal, if_pos later]

end Audit

/-- A `return` hands back exactly the locals whose identifier climbs to it on a way without
branches. A creation on such a way, or any other, is placed as returned; one that is kept in the
local before is placed as returned later. -/
theorem hands_back_iff_climbs_to (statement operand : Node) (name : String)
    (isReturn : statement.kind = .returnStatement) (isOperand : statement.operand? = some operand)
    (regular : statement.top.everywhere Tree.isRegular = true) :
    (operand.handsBack name = true ↔
      ∃ holder : Node, holder.kind = .identifier ∧ holder.text = name ∧ holder.Within operand ∧
        Node.ClimbsTo statement holder ∧ Node.Unbranched statement holder) ∧
    ∀ audit : Audit,
      (∀ node, Node.ClimbsTo statement node → (returnedBy statement).isGetterReturn = false →
        audit.placeValue node.valueRoot = returnedBy statement) ∧
      ∀ (holder root : Node) (region : Region), holder.kind = .identifier →
        holder.Within operand → Node.ClimbsTo statement holder →
        Node.Unbranched statement holder → audit.KeptInLocal root holder.text →
        audit.regionAt? root = some region → statement ∈ region.returns →
        root.stop ≤ statement.start → audit.placeValue root ≠ .usingHeader →
        audit.placeValue root = .returnLater := by
  have isParent := Node.parent_of_mem_children (Node.mem_children_of_first_part isOperand)
  have handed : ∀ holder : Node, holder.kind = .identifier → holder.Within operand →
      Node.ClimbsTo statement holder → Node.Unbranched statement holder →
      operand.handsBack holder.text = true := by
    intro holder kind within climbs unbranched
    apply Node.hands_back_of_climbs_to isReturn isParent regular within climbs (.self holder)
      unbranched
    apply Node.hands_back_iff.mpr
    rw [Node.unwrap_value_of_not_wrapper (by rw [kind]; rfl)]
    exact Or.inl ⟨kind, rfl⟩
  constructor
  · constructor
    · intro found
      have stays : operand.valueRoot = operand :=
        Node.value_root_of_not_passes isParent (Node.passes_value_eq_false (by rw [isReturn]; rfl))
      rw [← Node.top_of_parent isParent] at regular
      exact Node.exists_of_hands_back regular (.operand (stays.symm ▸ isParent))
        (.of_child isParent) found
    · rintro ⟨holder, kind, rfl, within, climbs, unbranched⟩
      exact handed holder kind within climbs unbranched
  · intro audit
    constructor
    · intro node climbs notGetter
      exact audit.place_value_of_climbs_to isReturn notGetter climbs
    · intro holder root region kind within climbs unbranched stored isRegion inRegion after
      apply audit.place_value_of_returned_later stored
      have found := handed holder kind within climbs unbranched
      rw [Audit.returnedLater, isRegion, Option.any_some]
      apply List.any_eq_true.mpr
      refine ⟨statement, inRegion, ?_⟩
      simp [after, isOperand, found]

/-- `s` -/
def nameTree : Tree :=
  .node ⟨.identifier, true, none, 0, 0, "s"⟩ []

/-- `F((s))` -/
def wrappedTree : Tree :=
  branch .invocationExpression none
    [branch .identifier (some .function) [],
      branch .argumentList (some .arguments)
        [branch .argument none [branch .parenthesizedExpression none [nameTree]]]]

/-- `c ? s : t` -/
def branchedTree : Tree :=
  branch .conditionalExpression none
    [branch .identifier (some .condition) [], nameTree, branch .identifier none []]

def returnOf (operand : Tree) : Node :=
  .root (branch .returnStatement none [operand])

def operandIn (operand : Tree) : Node :=
  ⟨operand, [⟨branch .returnStatement none [operand], 0⟩], rfl, trivial⟩

def branchedName : Node :=
  ⟨nameTree, [⟨branchedTree, 1⟩, ⟨branch .returnStatement none [branchedTree], 0⟩],
    rfl, rfl, trivial⟩

theorem hands_back_iff_climbs_to_branches :
    (operandIn wrappedTree).handsBack "s" = true ∧
    (∃ holder : Node, holder.text = "s" ∧ Node.ClimbsTo (returnOf wrappedTree) holder) ∧
    (operandIn branchedTree).handsBack "s" = false ∧
    Node.ClimbsTo (returnOf branchedTree) branchedName ∧
    ¬Node.Unbranched (returnOf branchedTree) branchedName := by
  have wrapped := hands_back_iff_climbs_to (returnOf wrappedTree)
    (operandIn wrappedTree) "s" rfl rfl
    (by decide +kernel)
  have branched := hands_back_iff_climbs_to (returnOf branchedTree) (operandIn branchedTree) "s" rfl
    rfl (by decide +kernel)
  have handed : (operandIn wrappedTree).handsBack "s" = true := by decide +kernel
  have notHanded : (operandIn branchedTree).handsBack "s" = false := by decide +kernel
  have climbs : Node.ClimbsTo (returnOf branchedTree) branchedName := .operand rfl
  refine ⟨handed, ?_, notHanded, climbs, ?_⟩
  · obtain ⟨holder, -, text, -, up, -⟩ := wrapped.1.mp handed
    exact ⟨holder, text, up⟩
  · intro unbranched
    have within : branchedName.Within (operandIn branchedTree) := Or.inr List.mem_cons_self
    have found := branched.1.mpr ⟨branchedName, rfl, rfl, within, climbs, unbranched⟩
    rw [notHanded] at found
    cases found

end ReleaseAudit.Verdict
