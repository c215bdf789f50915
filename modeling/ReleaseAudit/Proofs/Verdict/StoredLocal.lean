import ReleaseAudit.Proofs.Inference.Visibility
import ReleaseAudit.Proofs.Verdict.FileOrder
import ReleaseAudit.Proofs.Verdict.HandedBack
import ReleaseAudit.Proofs.Verdict.Suppression

/-!
# The scope of a local and the scope of a creation

A local is declared in one function and may be assigned in another that is
nested in it. A creation stored in a local is judged by the function around the
creation alone. For a declaration that is the function of the local; for an
assignment it may be a nested one, and then releases in the rest of the
declaring function are not seen.
-/

namespace ReleaseAudit.Source

set_option autoImplicit false

/-- Nodes that the search for a scope takes notice of. -/
def Kind.marksScope (kind : Kind) : Bool :=
  kind.isScope || kind == .compilationUnit || kind == .globalStatement

namespace Node

theorem enclosing_scope_of_parent {node parent : Node} (isParent : node.parent? = some parent)
    (plain : parent.kind.marksScope = false) :
    node.enclosingScope? = parent.enclosingScope? := by
  unfold Kind.marksScope at plain
  simp only [Bool.or_eq_false_iff] at plain
  obtain ⟨⟨notScope, notUnit⟩, notGlobal⟩ := plain
  rw [enclosingScope?, ancestors_of_parent isParent, scopeAmong?, enclosingScope?]
  simp [notScope, notUnit, notGlobal]

theorem marks_scope_of_is_wrapper {kind : Kind} (wraps : isWrapper kind = true) :
    kind.marksScope = false := by
  cases kind <;> first | rfl | cases wraps

theorem parent_of_ancestors {node parent : Node} {enclosing : List Node}
    (above : node.ancestors = parent :: enclosing) :
    node.parent? = some parent ∧ parent.ancestors = enclosing := by
  cases found : node.parent? with
  | none =>
      obtain ⟨tree, frames, linked⟩ := node
      cases frames with
      | nil => cases above
      | cons frame frames => cases found
  | some outer =>
      rw [ancestors_of_parent found] at above
      cases above
      exact ⟨rfl, rfl⟩

theorem enclosing_scope_climb_value {current : Node} {enclosing : List Node}
    (above : current.ancestors = enclosing) :
    (climbValue current enclosing).enclosingScope? = current.enclosingScope? := by
  induction enclosing generalizing current with
  | nil => rfl
  | cons parent enclosing ih =>
      obtain ⟨isParent, further⟩ := parent_of_ancestors above
      rw [climbValue]
      split
      · next passes =>
          rw [ih further]
          exact (enclosing_scope_of_parent isParent
            (marks_scope_of_is_wrapper (is_wrapper_of_passes passes))).symm
      · rfl

theorem enclosing_scope_value_root (node : Node) :
    node.valueRoot.enclosingScope? = node.enclosingScope? :=
  enclosing_scope_climb_value rfl

theorem enclosing_scope_await_among {node await : Node} {enclosing : List Node}
    (above : node.ancestors = enclosing) (found : awaitAmong? enclosing = some await) :
    await.enclosingScope? = node.enclosingScope? := by
  induction enclosing generalizing node with
  | nil => cases found
  | cons parent enclosing ih =>
      obtain ⟨isParent, further⟩ := parent_of_ancestors above
      rw [awaitAmong?] at found
      split at found
      · next kind =>
          rw [enclosing_scope_of_parent isParent (by rw [kind]; rfl)]
          exact ih further found
      · next kind =>
          cases found
          exact (enclosing_scope_of_parent isParent (by rw [kind]; rfl)).symm
      · cases found

theorem enclosing_scope_created_value (node : Node) :
    node.createdValue.enclosingScope? = node.enclosingScope? := by
  unfold createdValue
  split
  · cases found : node.awaitedBy? with
    | none => rfl
    | some await => exact enclosing_scope_await_among rfl found
  · rfl

theorem enclosing_scope_of_declarator_of {root : Node} {declared : Declarator}
    (found : root.declaratorOf? = some declared) :
    root.enclosingScope? = declared.declarator.enclosingScope? := by
  obtain ⟨isDeclarator, -, -⟩ := declarator_of_declarator_of found
  obtain ⟨parent, isParent, ⟨kind, rfl⟩ | ⟨kind, isGrandparent⟩⟩ := parent_of_declarator_of found
  · exact enclosing_scope_of_parent isParent (by rw [kind]; rfl)
  · rw [enclosing_scope_of_parent isParent (by rw [kind]; rfl)]
    exact enclosing_scope_of_parent isGrandparent (by rw [isDeclarator]; rfl)

theorem mem_ancestors_of_unwrap_value {node outer : Node}
    (above : outer ∈ node.unwrapValue.ancestors) (notWrapper : isWrapper outer.kind = false) :
    outer ∈ node.ancestors := by
  fun_induction unwrapValue node with
  | case1 node => exact above
  | case2 node inner found shorter ih =>
      have isParent := parent_of_mem_children (mem_children_of_wrapped found)
      have further := ih above
      rw [ancestors_of_parent isParent] at further
      rcases List.mem_cons.mp further with rfl | further
      · have wraps : isWrapper outer.kind = true := by
          unfold wrapped? at found
          split at found <;> first | (next kind => rw [kind]; rfl) | cases found
        rw [wraps] at notWrapper
        cases notWrapper
      · exact further

theorem within_of_scope_among {node inner outer : Node} {inGlobal : Bool}
    (found : scopeAmong? inGlobal node.ancestors = some inner) (above : outer ∈ node.ancestors)
    (isScope : outer.kind.isScope = true) : inner.Within outer := by
  generalize list : node.ancestors = enclosing at found above
  induction enclosing generalizing node inGlobal with
  | nil => cases found
  | cons parent enclosing ih =>
      obtain ⟨isParent, further⟩ := parent_of_ancestors list
      have around : parent.Within outer := by
        rcases List.mem_cons.mp above with rfl | above
        · exact Within.self outer
        · exact Or.inr (further ▸ above)
      rw [scopeAmong?] at found
      split at found
      · cases found
        exact around
      · next notScope =>
          split at found
          · cases found
            exact around
          · rcases List.mem_cons.mp above with rfl | above
            · exact absurd isScope notScope
            · exact ih further found above

end Node

end ReleaseAudit.Source

namespace ReleaseAudit.Verdict

set_option autoImplicit false

open Inference (LastBefore localAmong? binding_in_eq_local_variable_iff local_among_eq_some_iff
  variableOutline)
open Source (Declarator Document Node Outline)
open Source.Sample (classWith letter methodWith token unit)
open ReleaseAudit.Types (Symbol TypeSymbol)

namespace Audit

variable (audit : Audit)

/-- The value is kept in the local that the declarator declares: it initialises the local, or
it is assigned to an identifier that is bound to the declarator. -/
inductive StoredIn (root : Node) : (name : String) → (declarator : Node) → Prop
  | declared {declared : Declarator} (found : root.declaratorOf? = some declared)
      (isLocal : declared.isField = false) : StoredIn root declared.name.text declared.declarator
  | assigned {assignment right left declarator : Node} {symbol : Symbol}
      (inAssignment : root.parentOf? .assignmentExpression = some assignment)
      (isRight : assignment.child? .right = some right) (same : root.same right = true)
      (notElement : assignment.parentOf? .initializerExpression = none)
      (isLeft : assignment.child? .left = some left)
      (isIdentifier : left.unwrapValue.kind = .identifier)
      (resolved : audit.model.symbolOf left.unwrapValue = some symbol)
      (isLocal : symbol.kind = .localVariable)
      (bound : localAmong? left.unwrapValue left.unwrapValue.text left.unwrapValue.ancestors =
        some (.localVariable declarator)) :
      StoredIn root left.unwrapValue.text declarator

/-- Nothing in the region releases the local or takes it over. -/
structure Untouched (region : Region) (name : String) (resource : TypeSymbol) : Prop where
  headers : ∀ reference ∈ region.headerReferences name,
    audit.headerReferenceReleases reference = false
  calls : ∀ invocation ∈ region.invocations,
    audit.invocationReleases invocation name resource = false
  constructions : ∀ creation ∈ region.creations, audit.constructionReleases creation name = false

variable {audit}

theorem StoredIn.kept_in_local {root declarator : Node} {name : String}
    (stored : audit.StoredIn root name declarator) : audit.KeptInLocal root name := by
  cases stored with
  | declared found isLocal => exact .declared found isLocal
  | assigned inAssignment isRight same notElement isLeft isIdentifier resolved isLocal bound =>
      exact .assigned inAssignment isRight same notElement isLeft isIdentifier resolved
        (Or.inl isLocal)

/-- The function that declares the local encloses the function around the value. -/
theorem StoredIn.within {root declarator declaring inner : Node} {name : String}
    (stored : audit.StoredIn root name declarator)
    (declares : declarator.enclosingScope? = some declaring)
    (isFunction : declaring.kind.isScope = true) (around : root.enclosingScope? = some inner) :
    inner.Within declaring := by
  cases stored with
  | declared found isLocal =>
      rw [Node.enclosing_scope_of_declarator_of found, declares] at around
      cases around
      exact Node.Within.self _
  | @assigned assignment right left declarator symbol inAssignment isRight same notElement isLeft
      isIdentifier resolved isLocal bound =>
      obtain ⟨nearer, scope, further, split, -, binds⟩ := local_among_eq_some_iff.mp bound
      obtain ⟨-, isLast⟩ := binding_in_eq_local_variable_iff.mp binds
      have isDeclaring := isLast.declared.belongs
      rw [declares] at isDeclaring
      cases isDeclaring
      obtain ⟨isParent, kind⟩ := Node.parent_of_eq_some_iff.mp inAssignment
      have notWrapper : Node.isWrapper declaring.kind = false := by
        cases found : declaring.kind <;> first | rfl | (rw [found] at isFunction; cases isFunction)
      have aboveTarget : declaring ∈ left.unwrapValue.ancestors := by
        rw [split]
        simp
      have aboveLeft := Node.mem_ancestors_of_unwrap_value aboveTarget notWrapper
      have isLeftParent := Node.parent_of_mem_children (Node.mem_children_of_child isLeft)
      rw [Node.ancestors_of_parent isLeftParent, ← Node.ancestors_of_parent isParent] at aboveLeft
      exact Node.within_of_scope_among around aboveLeft isFunction

theorem place_value_ne_using_header {root : Node} {name : String}
    (stored : audit.KeptInLocal root name) (outside : root.enclosingUsingHeader? = none) :
    audit.placeValue root ≠ .usingHeader := by
  cases stored with
  | @declared declared found isLocal =>
      obtain ⟨parent, isParent, kept⟩ := parent_of_declarator found
      rw [audit.place_value_of_parent isParent kept, outside, found]
      simp only [Audit.declared, isLocal, Option.map_none, Option.none_or, Option.map_some,
        Option.some_or, Option.getD_some, Bool.false_eq_true, if_false]
      split <;> simp
  | @assigned assignment right left symbol inAssignment isRight same notElement isLeft
      isIdentifier resolved isLocal =>
      obtain ⟨isParent, kind⟩ := Node.parent_of_eq_some_iff.mp inAssignment
      have kept : usesAtOnce assignment.kind = false := by rw [kind]; rfl
      have notDeclared := Node.declarator_of_eq_none isParent (by simp [kind]) (by simp [kind])
      rw [audit.place_value_of_parent isParent kept, outside, notDeclared,
        audit.assigned_of_identifier inAssignment isRight same notElement isLeft isIdentifier
          resolved isLocal]
      simp only [placeLocal, Option.map_none, Option.none_or, Option.some_or, Option.getD_some]
      split <;> simp

theorem decide_kept_in_local_iff {root site : Node} {name : String} {resource : TypeSymbol}
    (stored : audit.KeptInLocal root name) :
    (∃ holder kept, audit.decide? (audit.placeValue root) site resource =
        some (.unreleased holder kept)) ↔
      root.enclosingUsingHeader? = none ∧ audit.returnedLater root name = false ∧
        audit.isReleasedLocally site name resource = false := by
  constructor
  · rintro ⟨holder, keptName, decided⟩
    have kept : audit.decide? (audit.placeValue root) site resource ≠ some .released := by
      rw [decided]
      simp
    refine ⟨?_, ?_, ?_⟩
    · cases header : root.enclosingUsingHeader? with
      | none => rfl
      | some statement =>
          exfalso
          apply kept
          obtain ⟨parent, isParent, holds⟩ : ∃ parent, root.parent? = some parent ∧
              usesAtOnce parent.kind = false := by
            cases stored with
            | declared found isLocal => exact parent_of_declarator found
            | assigned inAssignment isRight same notElement isLeft isIdentifier resolved isLocal =>
                obtain ⟨isParent, kind⟩ := Node.parent_of_eq_some_iff.mp inAssignment
                exact ⟨_, isParent, by rw [kind]; rfl⟩
          rw [audit.place_value_of_enclosing_using_header isParent holds header]
          rfl
    · apply Bool.eq_false_iff.mpr
      exact fun returned => kept (audit.decide_of_kept_in_local stored (Or.inl returned))
    · apply Bool.eq_false_iff.mpr
      exact fun released => kept (audit.decide_of_kept_in_local stored (Or.inr released))
  · rintro ⟨outside, notReturned, notReleased⟩
    rcases audit.place_value_of_kept_in_local stored with header | ⟨holder, rfl, placed⟩
    · exact absurd header (place_value_ne_using_header stored outside)
    · have reported : audit.decideLocal site holder resource =
          .unreleased .localVariable (some holder.text) := by
        rw [decideLocal, notReleased]
        rfl
      rcases placed with placed | placed <;>
        rw [placed, placeLocal, if_neg (by simp [notReturned]), decide?, reported] <;>
        exact ⟨_, _, rfl⟩

theorem is_released_locally_eq_false_iff {site : Node} {region : Region} {name : String}
    {resource : TypeSymbol} (searched : audit.regionAt? site = some region) :
    audit.isReleasedLocally site name resource = false ↔
      audit.Untouched region name resource := by
  unfold isReleasedLocally
  rw [searched]
  simp only [Bool.or_eq_false_iff, List.any_eq_false, Bool.not_eq_true]
  constructor
  · rintro ⟨⟨headers, calls⟩, constructions⟩
    exact ⟨headers, calls, constructions⟩
  · intro untouched
    exact ⟨⟨untouched.headers, untouched.calls⟩, untouched.constructions⟩

theorem reports_iff_decision {document : Document} {node : Node} :
    (∃ diagnostic, audit.diagnose? document node = some (some diagnostic)) ↔
      (audit.originOf? node).isSome = true ∧ ∃ type,
        audit.model.typeOf node.createdValue = some type ∧ audit.rules.needsRelease type = true ∧
        ∃ holder name, audit.decide? (audit.placeValue node.createdValue.valueRoot) node type =
          some (.unreleased holder name) := by
  simp only [reports_iff, resource_of_eq_some_iff, Option.isSome_iff_exists]
  constructor
  · rintro ⟨origin, _, type, holder, name, ⟨isOrigin, typed, needed, rfl⟩, decided⟩
    exact ⟨⟨origin, isOrigin⟩, type, typed, needed, holder, name, decided⟩
  · rintro ⟨⟨origin, isOrigin⟩, type, typed, needed, holder, name, decided⟩
    exact ⟨origin, _, type, holder, name, ⟨isOrigin, typed, needed, rfl⟩, decided⟩

end Audit

/-- A creation that a local keeps is judged by the region searched for its site. A release
call there silences it. It is reported exactly when it needs a release, stands in no `using`
header, is not returned later, and nothing in that region releases the local, whatever the
rest of the declaring function holds. For a declaration the function around the site is the
one that declares the local; for an assignment it lies within that one. -/
theorem diagnose_stored_in (audit : Audit) (document : Document) (node declarator declaring : Node)
    (name : String) (stored : audit.StoredIn node.createdValue.valueRoot name declarator)
    (declares : declarator.enclosingScope? = some declaring) :
    (node.createdValue.valueRoot.declaratorOf?.isSome = true →
      node.enclosingScope? = some declaring) ∧
    (∀ inner, node.enclosingScope? = some inner → declaring.kind.isScope = true →
      inner.Within declaring) ∧
    ∀ region, audit.regionAt? node = some region →
      ((∃ invocation ∈ region.invocations, audit.isReleaseCallOn invocation name = true) →
        audit.diagnose? document node = some none) ∧
      ((∃ diagnostic, audit.diagnose? document node = some (some diagnostic)) ↔
        (audit.originOf? node).isSome = true ∧ ∃ type,
          audit.model.typeOf node.createdValue = some type ∧
          audit.rules.needsRelease type = true ∧
          node.createdValue.valueRoot.enclosingUsingHeader? = none ∧
          audit.returnedLater node.createdValue.valueRoot name = false ∧
          audit.Untouched region name type) := by
  have sameScope : node.createdValue.valueRoot.enclosingScope? = node.enclosingScope? :=
    (Node.enclosing_scope_value_root _).trans (Node.enclosing_scope_created_value node)
  have keeps : ∀ type,
      (∃ holder kept, audit.decide? (audit.placeValue node.createdValue.valueRoot) node type =
        some (.unreleased holder kept)) ↔
      node.createdValue.valueRoot.enclosingUsingHeader? = none ∧
        audit.returnedLater node.createdValue.valueRoot name = false ∧
        audit.isReleasedLocally node name type = false :=
    fun type => Audit.decide_kept_in_local_iff stored.kept_in_local
  refine ⟨?_, ?_, ?_⟩
  · intro initialises
    rw [← sameScope, ← declares]
    cases stored with
    | declared found isLocal => exact Node.enclosing_scope_of_declarator_of found
    | assigned inAssignment =>
        obtain ⟨isParent, kind⟩ := Node.parent_of_eq_some_iff.mp inAssignment
        rw [Node.declarator_of_eq_none isParent (by simp [kind]) (by simp [kind])] at initialises
        cases initialises
  · intro inner around isFunction
    rw [← sameScope] at around
    exact stored.within declares isFunction around
  · intro region searched
    refine ⟨?_, ?_⟩
    · rintro ⟨invocation, listed, releases⟩
      apply audit.diagnose_of_decide document
      intro type _
      apply audit.decide_of_kept_in_local stored.kept_in_local
      right
      by_contra notReleased
      have untouched := (Audit.is_released_locally_eq_false_iff searched).mp
        (Bool.eq_false_iff.mpr notReleased)
      have quiet := untouched.calls invocation listed
      simp [Audit.invocationReleases, releases] at quiet
    · rw [Audit.reports_iff_decision]
      simp only [keeps, Audit.is_released_locally_eq_false_iff searched]

/-- `class A { void M() { A s; F(() => { s = new A(); }); s.D(); } }`: the call `s.D()` releases
`s`, but stands outside of the lambda. -/
def capturedText : String :=
  "class A \x7b void M() \x7b A s; F(() => \x7b s = new A(); \x7d); s.D(); \x7d \x7d"

/-- `() => { s = new A(); }` -/
def capturingLambda : Outline :=
  .node .lambdaExpression true none 28 50
    [.node .parameterList true (some .parameters) 28 30 [token "(" 28, token ")" 29],
      token "=>" 31,
      .node .block true (some .body) 34 50
        [token "\x7b" 34,
          .node (.other "expression_statement") true none 36 48
            [.node .assignmentExpression true none 36 47
              [letter (some .left) 36, token "=" 38,
                .node .objectCreationExpression true (some .right) 40 47
                  [token "new" 40, letter (some .type) 44,
                    .node .argumentList true (some .arguments) 45 47
                      [token "(" 45, token ")" 46]]],
              token ";" 47],
          token "\x7d" 49]]

/-- `s.D()` -/
def releasingCall : Outline :=
  .node .invocationExpression true none 53 58
    [.node .memberAccessExpression true (some .function) 53 56
      [letter (some .expression) 53, token "." 54, letter (some .name) 55],
      .node .argumentList true (some .arguments) 56 58 [token "(" 56, token ")" 57]]

def capturedOutline : Outline :=
  unit 63 [classWith 0 63
    [methodWith 10 61
      [.node .localDeclarationStatement true none 21 25 [variableOutline 21, token ";" 24],
        .node (.other "expression_statement") true none 26 52
          [.node .invocationExpression true none 26 51
            [letter (some .function) 26,
              .node .argumentList true (some .arguments) 27 51
                [token "(" 27, .node .argument true none 28 50 [capturingLambda], token ")" 50]],
            token ";" 51],
        .node (.other "expression_statement") true none 53 59 [releasingCall, token ";" 58]]]]

def capturedDocument : Document := .ofOutline "captured.cs" capturedText capturedOutline

/-- Knows that `new A()` holds a resource, that `s` is a local and that `D` releases. -/
def capturedAudit : Audit where
  model := .ofTexts [("new A()", ⟨"A", [], [], .classType⟩)]
    [("s", .ofName .localVariable "s")]
  rules := { partsRules with disposalContracts := ["A"], releaseMethods := ["D"] }

/-- The variable is released by a call in the function that declares it. -/
def isReleasedAround (audit : Audit) (name : String) : Inference.Binding → Bool
  | .localVariable declarator =>
      declarator.enclosingScope?.any fun scope =>
        scope.kind.isScope && (Region.mk scope).invocations.any fun invocation =>
          audit.isReleaseCallOn invocation name
  | _ => false

theorem diagnose_stored_in_captured :
    ∃ node declarator declaring inner : Node,
      capturedAudit.StoredIn node.createdValue.valueRoot "s" declarator ∧
      declarator.enclosingScope? = some declaring ∧
      ((Region.mk declaring).invocations.any fun invocation =>
        capturedAudit.isReleaseCallOn invocation "s") = true ∧
      node.enclosingScope? = some inner ∧ inner.Within declaring ∧
      (∃ diagnostic, capturedAudit.diagnose? capturedDocument node = some (some diagnostic)) ∧
      ∃ type, capturedAudit.Untouched ⟨inner⟩ "s" type := by
  have shape : ((capturedDocument.root.descendantsOf .objectCreationExpression).any fun node =>
      (node.parentOf? .assignmentExpression).any fun assignment =>
        (assignment.child? .right).any node.same &&
          (assignment.parentOf? .initializerExpression).isNone &&
          (assignment.child? .left).any fun left =>
            left.kind == .identifier && left.text == "s" &&
              (capturedAudit.model.symbolOf left).any (fun symbol =>
                symbol.kind == .localVariable) &&
              (localAmong? left "s" left.ancestors).any (isReleasedAround capturedAudit "s") &&
              node.enclosingScope?.isSome &&
              (capturedAudit.diagnose? capturedDocument node).join.isSome) = true := by
    decide +kernel
  obtain ⟨node, listed, shape⟩ := List.any_eq_true.mp shape
  obtain ⟨assignment, inAssignment, shape⟩ := (Option.any_eq_true _ _).mp shape
  simp only [Bool.and_eq_true] at shape
  obtain ⟨⟨isRight, notElement⟩, shape⟩ := shape
  obtain ⟨right, isRight, same⟩ := (Option.any_eq_true _ _).mp isRight
  obtain ⟨left, isLeft, shape⟩ := (Option.any_eq_true _ _).mp shape
  simp only [Bool.and_eq_true, beq_iff_eq] at shape
  obtain ⟨⟨⟨⟨⟨isIdentifier, spelled⟩, resolved⟩, bound⟩, around⟩, reported⟩ := shape
  obtain ⟨symbol, resolved, isLocal⟩ := (Option.any_eq_true _ _).mp resolved
  obtain ⟨inner, around⟩ := Option.isSome_iff_exists.mp around
  obtain ⟨diagnostic, reported⟩ := Option.isSome_iff_exists.mp reported
  have reported := Option.join_eq_some_iff.mp reported
  obtain ⟨binding, bound, released⟩ := (Option.any_eq_true _ _).mp bound
  have isCreation : node.kind = .objectCreationExpression :=
    eq_of_beq (List.mem_filter.mp listed).2
  have isValue : node.createdValue.valueRoot = node := by
    obtain ⟨isParent, kind⟩ := Node.parent_of_eq_some_iff.mp inAssignment
    have created : node.createdValue = node := by simp [Node.createdValue, isCreation]
    rw [created]
    exact Node.value_root_of_not_passes isParent (Node.passes_value_eq_false (by rw [kind]; rfl))
  have isTarget : left.unwrapValue = left :=
    Node.unwrap_value_of_not_wrapper (by rw [isIdentifier]; rfl)
  cases binding with
  | localVariable declarator =>
      obtain ⟨declaring, declares, released⟩ := (Option.any_eq_true _ _).mp released
      obtain ⟨isFunction, released⟩ := Bool.and_eq_true_iff.mp released
      have stored : capturedAudit.StoredIn node.createdValue.valueRoot "s" declarator := by
        rw [isValue, ← spelled, ← isTarget]
        apply Audit.StoredIn.assigned inAssignment isRight same
          (Option.isNone_iff_eq_none.mp notElement) isLeft
        · rw [isTarget]
          exact isIdentifier
        · rw [isTarget]
          exact resolved
        · exact eq_of_beq isLocal
        · rw [isTarget, spelled]
          exact bound
      obtain ⟨-, within, judged⟩ := diagnose_stored_in capturedAudit capturedDocument node
        declarator declaring "s" stored declares
      have searched : capturedAudit.regionAt? node = some ⟨inner⟩ :=
        congrArg (Option.map Region.mk) around
      obtain ⟨-, type, -, -, -, -, untouched⟩ := (judged ⟨inner⟩ searched).2.mp ⟨_, reported⟩
      exact ⟨node, declarator, declaring, inner, stored, declares, released, around,
        within inner around isFunction, ⟨_, reported⟩, type, untouched⟩
  | parameter declaration => cases released
  | untyped => cases released
  | iteration statement => cases released
  | member decl member => cases released

end ReleaseAudit.Verdict
