import ReleaseAudit.Proofs.Source.Parent
import ReleaseAudit.Proofs.Verdict.Endless

/-!
# Suppression is never masked

The questions that place a value are asked in a fixed order, so a question that
comes early could hide a release that a later one would have found. It does not:
which questions can apply at all is decided by the kind of the parent, and
where two of them apply under one parent, the earlier one releases the value
too.

Each suppressing shape is followed to its own question, and the questions
before it are shown to fail or to release.
-/

namespace ReleaseAudit.Verdict

set_option autoImplicit false

open Source (Declarator Document Kind Node Tree)
open ReleaseAudit.Types (TypeSymbol)

/-- Parents that use a value at once: it is returned, passed, called on or listed there. -/
def usesAtOnce : Kind → Bool
  | .returnStatement | .arrowExpressionClause | .lambdaExpression | .argument
  | .memberAccessExpression | .conditionalAccessExpression | .initializerExpression => true
  | _ => false

theorem returned_eq_none {root parent : Node} (found : root.parent? = some parent)
    (notReturn : parent.kind ≠ .returnStatement) (notArrow : parent.kind ≠ .arrowExpressionClause)
    (notLambda : parent.kind ≠ .lambdaExpression) : returned? root = none := by
  simp [returned?, found, notReturn, notLambda, Node.arrow_body_owner_eq_none found notArrow]

theorem returned_as_argument_eq_none {root : Node} (alone : root.argumentOwner? = none) :
    returnedAsArgument? root = none := by
  rw [returnedAsArgument?]
  split
  · rfl
  · next owner found =>
      rw [alone] at found
      cases found

theorem initializer_element_eq_none {root parent : Node} (found : root.parent? = some parent)
    (other : parent.kind ≠ .initializerExpression) : initializerElement? root = none := by
  have outside : (parent.kind == .initializerExpression) = false := by simpa using other
  simp [initializerElement?, Node.ancestors_of_parent found, outside]

theorem parent_of_declarator {root : Node} {declared : Declarator}
    (found : root.declaratorOf? = some declared) :
    ∃ parent, root.parent? = some parent ∧ usesAtOnce parent.kind = false := by
  obtain ⟨parent, isParent, kind⟩ := Node.parent_of_declarator_of found
  refine ⟨parent, isParent, ?_⟩
  rcases kind with ⟨kind, -⟩ | ⟨kind, -⟩ <;> rw [kind] <;> rfl

namespace Audit

variable (audit : Audit)

/-- A value that its parent does not use at once is placed by the later questions. -/
theorem place_value_of_parent {root parent : Node} (found : root.parent? = some parent)
    (kept : usesAtOnce parent.kind = false) :
    audit.placeValue root =
      ((root.enclosingUsingHeader?.map fun _ => .usingHeader).or <|
        (root.declaratorOf?.map (audit.declared root)).or <|
        (audit.assigned? root).or <|
        (initialisedProperty? root).map .autoProperty).getD .anonymous := by
  have differs (kind : Kind) (uses : usesAtOnce kind = true) : parent.kind ≠ kind := by
    intro same
    rw [same, uses] at kept
    cases kept
  have notCalled := Node.invocation_on_receiver_eq_none found (differs _ rfl) (differs _ rfl)
  have notPassed := Node.argument_owner_eq_none found (differs _ rfl)
  have notReturned := returned_eq_none found (differs _ rfl) (differs _ rfl) (differs _ rfl)
  have notListed := initializer_element_eq_none found (differs _ rfl)
  simp [placeValue, notCalled, notPassed, notReturned, notListed,
    returned_as_argument_eq_none notPassed]

theorem place_value_of_enclosing_using_header {root parent statement : Node}
    (found : root.parent? = some parent) (kept : usesAtOnce parent.kind = false)
    (header : root.enclosingUsingHeader? = some statement) :
    audit.placeValue root = .usingHeader := by
  rw [audit.place_value_of_parent found kept, header]
  rfl

theorem place_value_of_argument_owner {root owner : Node}
    (found : root.argumentOwner? = some owner) :
    (audit.placeValue root).isReturn = true ∨ audit.placeValue root = argumentPlacement owner := by
  obtain ⟨parent, isParent, kind⟩ := Node.kind_of_argument_owner found
  have notCalled := Node.invocation_on_receiver_eq_none isParent (by simp [kind]) (by simp [kind])
  have notReturned := returned_eq_none isParent (by simp [kind]) (by simp [kind]) (by simp [kind])
  simp only [placeValue, notCalled, notReturned, found, Option.any_none, Option.none_or,
    Option.map_some, Bool.false_eq_true, if_false]
  cases returning : returnedAsArgument? root with
  | none => exact Or.inr rfl
  | some placement => exact Or.inl (is_return_of_returned_as_argument returning)

theorem place_value_of_invocation_on_receiver {root invocation : Node}
    (found : root.invocationOnReceiver? = some invocation) :
    audit.placeValue root = .releasedImmediately ∨
      audit.placeValue root = .methodChainLink invocation := by
  obtain ⟨parent, isParent, kind⟩ := Node.kind_of_invocation_on_receiver found
  have differs (other : Kind) (notAccess : other ≠ .memberAccessExpression)
      (notConditional : other ≠ .conditionalAccessExpression) : parent.kind ≠ other := by
    rcases kind with same | same
    · exact fun equal => notAccess (equal.symm.trans same)
    · exact fun equal => notConditional (equal.symm.trans same)
  have notPassed := Node.argument_owner_eq_none isParent (differs _ nofun nofun)
  have notReturned := returned_eq_none isParent (differs _ nofun nofun) (differs _ nofun nofun)
    (differs _ nofun nofun)
  unfold placeValue
  split
  · exact Or.inl rfl
  · right
    simp [notPassed, notReturned, found, returned_as_argument_eq_none notPassed]

/-- The value is kept in the local of that name: it initialises the local, or it is assigned to
an identifier that refers to a local or parameter. -/
inductive KeptInLocal (root : Node) : (name : String) → Prop
  | declared {declared : Declarator} (found : root.declaratorOf? = some declared)
      (isLocal : declared.isField = false) : KeptInLocal root declared.name.text
  | assigned {assignment right left : Node} {symbol : Types.Symbol}
      (inAssignment : root.parentOf? .assignmentExpression = some assignment)
      (isRight : assignment.child? .right = some right) (same : root.same right = true)
      (notElement : assignment.parentOf? .initializerExpression = none)
      (isLeft : assignment.child? .left = some left)
      (isIdentifier : left.unwrapValue.kind = .identifier)
      (resolved : audit.model.symbolOf left.unwrapValue = some symbol)
      (isLocal : symbol.kind = .localVariable ∨ symbol.kind = .parameter) :
      KeptInLocal root left.unwrapValue.text

/-- A local placement, unless the local is handed back later. -/
def placeLocal (root : Node) (name : String) (placement : Placement) : Placement :=
  if audit.returnedLater root name then .returnLater else placement

theorem assigned_of_identifier {root assignment right left : Node} {symbol : Types.Symbol}
    (inAssignment : root.parentOf? .assignmentExpression = some assignment)
    (isRight : assignment.child? .right = some right) (same : root.same right = true)
    (notElement : assignment.parentOf? .initializerExpression = none)
    (isLeft : assignment.child? .left = some left)
    (isIdentifier : left.unwrapValue.kind = .identifier)
    (resolved : audit.model.symbolOf left.unwrapValue = some symbol)
    (isLocal : symbol.kind = .localVariable ∨ symbol.kind = .parameter) :
    audit.assigned? root =
      some (audit.placeLocal root left.unwrapValue.text (.localAssignment left.unwrapValue)) := by
  have stored : audit.assigned? root =
      some (audit.storedUnder root left.unwrapValue left.unwrapValue) := by
    simp [assigned?, inAssignment, isRight, Option.filter_some, same, notElement, isLeft,
      isIdentifier]
  rw [stored, storedUnder, resolved, Option.map_some]
  rcases isLocal with kind | kind <;> rw [kind] <;> rfl

theorem place_value_of_kept_in_local {root : Node} {name : String}
    (stored : audit.KeptInLocal root name) :
    audit.placeValue root = .usingHeader ∨
      ∃ holder : Node, holder.text = name ∧
        (audit.placeValue root = audit.placeLocal root name (.localDeclaration holder) ∨
          audit.placeValue root = audit.placeLocal root name (.localAssignment holder)) := by
  cases stored with
  | @declared declared found isLocal =>
      obtain ⟨parent, isParent, kept⟩ := parent_of_declarator found
      rw [audit.place_value_of_parent isParent kept, found]
      cases root.enclosingUsingHeader? with
      | some statement => exact Or.inl rfl
      | none =>
          refine Or.inr ⟨declared.name, rfl, Or.inl ?_⟩
          simp [Audit.declared, isLocal, placeLocal]
  | @assigned assignment right left symbol inAssignment isRight same notElement isLeft
      isIdentifier resolved isLocal =>
      obtain ⟨isParent, kind⟩ := Node.parent_of_eq_some_iff.mp inAssignment
      have kept : usesAtOnce assignment.kind = false := by rw [kind]; rfl
      have notDeclared := Node.declarator_of_eq_none isParent (by simp [kind]) (by simp [kind])
      rw [audit.place_value_of_parent isParent kept, notDeclared,
        audit.assigned_of_identifier inAssignment isRight same notElement isLeft isIdentifier
          resolved isLocal]
      cases root.enclosingUsingHeader? with
      | some statement => exact Or.inl rfl
      | none => exact Or.inr ⟨left.unwrapValue, rfl, Or.inr rfl⟩

theorem decide_of_is_return {placement : Placement} (returned : placement.isReturn = true)
    (site : Node) (resource : TypeSymbol) :
    audit.decide? placement site resource = some .released := by
  cases placement with
  | returnInBlock | returnArrowBody | returnInLambda => rfl
  | _ => cases returned

theorem decide_of_argument_owner {root owner : Node} (found : root.argumentOwner? = some owner)
    (takes : audit.tracksOwnership owner = true ∨
      owner.kind.isConstruction = true ∧ audit.isTrackedConstruction owner = true)
    (site : Node) (resource : TypeSymbol) :
    audit.decide? (audit.placeValue root) site resource = some .released := by
  rcases audit.place_value_of_argument_owner found with returned | passed
  · exact audit.decide_of_is_return returned site resource
  · rw [passed, argumentPlacement]
    rcases takes with tracks | ⟨isConstruction, tracks⟩
    · have isInvocation : (owner.kind == .invocationExpression) = true :=
        (Bool.and_eq_true_iff.mp tracks).1
      rw [if_pos isInvocation, decide?, tracks]
      rfl
    · have notInvocation : ¬(owner.kind == .invocationExpression) = true := by
        intro same
        rw [eq_of_beq same] at isConstruction
        cases isConstruction
      rw [if_neg notInvocation, decide?, tracks]
      rfl

theorem decide_of_kept_in_local {root site : Node} {name : String} {resource : TypeSymbol}
    (stored : audit.KeptInLocal root name)
    (ends : audit.returnedLater root name = true ∨
      audit.isReleasedLocally site name resource = true) :
    audit.decide? (audit.placeValue root) site resource = some .released := by
  rcases audit.place_value_of_kept_in_local stored with header | ⟨holder, rfl, placed⟩
  · rw [header]
    rfl
  · by_cases returned : audit.returnedLater root holder.text = true
    · rcases placed with placed | placed <;> rw [placed, placeLocal, if_pos returned] <;> rfl
    · have released := ends.resolve_left returned
      have keeps : audit.decideLocal site holder resource = .released := by
        rw [decideLocal, released]
        rfl
      rcases placed with placed | placed <;> rw [placed, placeLocal, if_neg returned] <;>
        exact congrArg some keeps

/-- What keeps a creation silent, whatever else holds of it. The value meant is the created one,
outside of its wrappers. -/
inductive Suppressed (node : Node) : Prop
  | unresolved (unknown : audit.model.typeOf node.createdValue = none)
  | ignored {type : TypeSymbol} {exempt : String}
      (resolved : audit.model.typeOf node.createdValue = some type)
      (listed : exempt ∈ audit.rules.ignoredTypes) (implemented : type.implements exempt = true)
  | resource {statement : Node} (inHeader : node.createdValue.valueRoot ∈ statement.usingHeader)
  | acquired {statement : Node} {declared : Declarator}
      (found : node.createdValue.valueRoot.declaratorOf? = some declared)
      (inHeader : declared.declaration ∈ statement.usingHeader)
  | released {call : Node} {name : String}
      (called : node.createdValue.valueRoot.invocationOnReceiver? = some call)
      (invoked : call.invokedName? = some name)
      (releases : audit.rules.isReleaseMethod name = true)
  | passed {owner : Node} (found : node.createdValue.valueRoot.argumentOwner? = some owner)
      (takes : audit.tracksOwnership owner = true ∨
        owner.kind.isConstruction = true ∧ audit.isTrackedConstruction owner = true)
  | chained {call link : Node}
      (called : node.createdValue.valueRoot.invocationOnReceiver? = some call)
      (tracking : audit.findTrackingLink? call = some (.tracking link))
  | handedBack {name : String} (stored : audit.KeptInLocal node.createdValue.valueRoot name)
      (returned : audit.returnedLater node.createdValue.valueRoot name = true)
  | releasedLocally {name : String} {type : TypeSymbol}
      (stored : audit.KeptInLocal node.createdValue.valueRoot name)
      (resolved : audit.model.typeOf node.createdValue = some type)
      (released : audit.isReleasedLocally node name type = true)

theorem diagnose_of_decide (document : Document) {node : Node}
    (released : ∀ type, audit.model.typeOf node.createdValue = some type →
      audit.decide? (audit.placeValue node.createdValue.valueRoot) node type = some .released) :
    audit.diagnose? document node = some none := by
  unfold diagnose?
  cases created : audit.resourceOf? node with
  | none => rfl
  | some resource =>
      obtain ⟨origin, placement, type⟩ := resource
      obtain ⟨-, resolved, -, rfl⟩ := audit.resource_of_eq_some_iff.mp created
      dsimp only
      rw [released type resolved]
      rfl

theorem diagnose_of_ignored (document : Document) {node : Node} {type : TypeSymbol}
    (resolved : audit.model.typeOf node.createdValue = some type)
    (ignored : audit.rules.isIgnored type = true) :
    audit.diagnose? document node = some none := by
  have exempt : audit.rules.needsRelease type = false := by
    simp [Rules.Ruleset.needsRelease, ignored]
  have nothing : audit.resourceOf? node = none := by
    rw [resource_of_eq]
    simp [resolved, exempt]
  rw [diagnose?, nothing]

theorem diagnose_of_enclosing_using_header (document : Document) {node parent statement : Node}
    (found : node.createdValue.valueRoot.parent? = some parent)
    (kept : usesAtOnce parent.kind = false)
    (header : node.createdValue.valueRoot.enclosingUsingHeader? = some statement) :
    audit.diagnose? document node = some none := by
  apply audit.diagnose_of_decide document
  intro type _
  rw [audit.place_value_of_enclosing_using_header found kept header]
  rfl

/-- The order of the questions never turns a suppressed creation into a reported one, or into one
whose audit does not end. -/
theorem diagnose_eq_none_of_suppressed (document : Document) (node : Node)
    (suppressed : audit.Suppressed node) : audit.diagnose? document node = some none := by
  cases suppressed with
  | unresolved unknown =>
      apply audit.diagnose_of_decide document
      intro type resolved
      rw [unknown] at resolved
      cases resolved
  | ignored resolved listed implemented =>
      exact audit.diagnose_of_ignored document resolved
        (List.any_eq_true.mpr ⟨_, listed, implemented⟩)
  | @resource statement inHeader =>
      obtain ⟨isParent, shape⟩ := Node.parent_of_mem_using_header inHeader
      have kept : usesAtOnce statement.kind = false := by
        rcases shape with ⟨kind, -⟩ | ⟨kind, -⟩ <;> rw [kind] <;> rfl
      exact audit.diagnose_of_enclosing_using_header document isParent kept
        (Node.enclosing_using_header_of_mem inHeader)
  | acquired found inHeader =>
      obtain ⟨parent, isParent, kept⟩ := parent_of_declarator found
      exact audit.diagnose_of_enclosing_using_header document isParent kept
        (Node.enclosing_using_header_of_declarator_of found inHeader)
  | released called invoked releases =>
      apply audit.diagnose_of_decide document
      intro type _
      have placed : audit.placeValue node.createdValue.valueRoot = .releasedImmediately := by
        rw [placeValue, called, if_pos]
        simp [releasesReceiver, invoked, releases]
      rw [placed]
      rfl
  | passed found takes =>
      exact audit.diagnose_of_decide document fun type _ =>
        audit.decide_of_argument_owner found takes node type
  | chained called tracking =>
      apply audit.diagnose_of_decide document
      intro type _
      rcases audit.place_value_of_invocation_on_receiver called with placed | placed <;> rw [placed]
      · rfl
      · rw [decide?, chainTracks?, tracking]
        rfl
  | handedBack stored returned =>
      exact audit.diagnose_of_decide document fun type _ =>
        audit.decide_of_kept_in_local stored (Or.inl returned)
  | releasedLocally stored resolved released =>
      apply audit.diagnose_of_decide document
      intro other same
      cases resolved.symm.trans same
      exact audit.decide_of_kept_in_local stored (Or.inr released)

end Audit

def heldCreationTree : Tree :=
  .node ⟨.objectCreationExpression, true, none, 14, 21, "new D()"⟩ []

def heldDeclaratorTree : Tree :=
  .node ⟨.variableDeclarator, true, none, 10, 21, "d = new D()"⟩
    [.node ⟨.identifier, true, some .name, 10, 11, "d"⟩ [],
      .node ⟨.other "=", false, none, 12, 13, "="⟩ [], heldCreationTree]

def heldDeclarationTree : Tree :=
  .node ⟨.variableDeclaration, true, none, 6, 21, "var d = new D()"⟩
    [.node ⟨.other "implicit_type", true, some .type, 6, 9, "var"⟩ [], heldDeclaratorTree]

/-- The statement `using var d = new D();`. -/
def heldStatementTree : Tree :=
  .node ⟨.localDeclarationStatement, true, none, 0, 22, "using var d = new D();"⟩
    [.node ⟨.other "using", false, none, 0, 5, "using"⟩ [], heldDeclarationTree]

def heldCreation : Node :=
  ⟨heldCreationTree, [⟨heldDeclaratorTree, 2⟩, ⟨heldDeclarationTree, 1⟩, ⟨heldStatementTree, 1⟩],
    ⟨rfl, rfl, rfl, trivial⟩⟩

/-- Knows that `new D()` holds a resource, and of no way to release it. -/
def heldAudit : Audit where
  model := Inference.Model.ofTexts [("new D()", ⟨"D", [], [], .classType⟩)] []
  rules :=
    { diagnosticId := "DISP001", severity := .info, disposalContracts := ["D"]
      releaseMethods := [], releaseDesignatedMethods := [], ignoredTypes := []
      ownershipTransfer := [], releaseEquivalent := [], ignoredFactories := []
      trackingTypes := [], catalog := ⟨[], []⟩ }

theorem diagnose_eq_none_of_suppressed_held :
    heldAudit.Suppressed heldCreation ∧
      heldAudit.diagnose? ⟨"held.cs", "using var d = new D();", heldStatementTree⟩ heldCreation =
        some none := by
  have suppressed : heldAudit.Suppressed heldCreation := by
    have listed : (Node.root heldStatementTree).usingHeader =
        [⟨heldDeclarationTree, [⟨heldStatementTree, 1⟩], ⟨rfl, trivial⟩⟩] := rfl
    exact .acquired rfl (listed ▸ List.mem_singleton.mpr rfl)
  exact ⟨suppressed, heldAudit.diagnose_eq_none_of_suppressed _ heldCreation suppressed⟩

end ReleaseAudit.Verdict
