import ReleaseAudit.Proofs.Inference.Respelling
import ReleaseAudit.Proofs.Verdict.Chain
import ReleaseAudit.Proofs.Verdict.HandedBack

/-!
# Releases in the two spellings of a getter

Audits that give twins the same types and symbols find the same releases around
twins: the same calls take ownership, the same headers and calls release a
local, and the same methods release a member.
-/

namespace ReleaseAudit.Verdict

set_option autoImplicit false

open Rules (TypeRule)
open Source (Kind Node Respelling Tree)
open Source.Node (rel_cases)
open Source.Respelling (Lined Twin Whole copying)
open ReleaseAudit.Types (TypeSymbol)

variable {before after : Tree} {spelling : Respelling before after} {left right : Node}

theorem depth_le_of_twin (twins : spelling.Twin left right) : left.depth ≤ right.depth := by
  have depth : ∀ node : Node, node.depth = node.place.length := by
    intro node
    simp [Node.depth, Node.place, Node.path]
  rw [depth, depth]
  cases twins with
  | outside _ _ there _ => rw [there]
  | inside rest _ _ leftThere rightThere =>
      rw [leftThere, rightThere]
      simp

theorem rel_next_link (twins : spelling.Twin left right) :
    Option.Rel spelling.Twin (Audit.nextLink? left) (Audit.nextLink? right) :=
  twins.value_root.invocation_on_receiver

/-- Audits that answer alike about twins, and that look for locals in the enclosing scope. -/
structure Agrees (spelling : Respelling before after) (audit other : Audit) : Prop where
  rules : audit.rules = other.rules
  typeOf : ∀ {left right : Node}, spelling.Twin left right →
    left.kind.isCreation = true ∨ left.kind = .awaitExpression →
      audit.model.typeOf left = other.model.typeOf right
  symbolOf : ∀ {left right : Node}, spelling.Twin left right →
    left.kind = .invocationExpression ∨ left.kind = .identifier ∨
      left.kind = .memberAccessExpression →
      audit.model.symbolOf left = other.model.symbolOf right
  scope : audit.model.enclosingScope = Node.enclosingScope?
  otherScope : other.model.enclosingScope = Node.enclosingScope?

theorem surrounds_accessor_of_is_creation {kind : Kind} (creates : kind.isCreation = true) :
    kind.surroundsAccessor = false := by
  unfold Kind.isCreation at creates
  split at creates
  · rfl
  · rfl
  · rfl
  · cases creates

theorem is_creation_of_is_construction {kind : Kind} (constructs : kind.isConstruction = true) :
    kind.isCreation = true := by
  unfold Kind.isConstruction at constructs
  split at constructs
  · rfl
  · rfl
  · cases constructs

theorem rel_get_elem {items others : List Node} {related : (left right : Node) → Prop}
    (paired : List.Forall₂ related items others) (position : Nat) :
    Option.Rel related items[position]? others[position]? := by
  induction paired generalizing position with
  | nil => exact .none
  | cons pair _ ih =>
      cases position with
      | zero => exact .some pair
      | succ position => exact ih position

theorem leaves_open_eq_of_whole (whole : spelling.Whole left right) :
    Audit.leavesOpen left = Audit.leavesOpen right := by
  funext leaveOpen
  have paired := copying.arguments whole
  unfold Audit.leavesOpen
  refine Node.any_eq_of_rel (Node.rel_bind (Node.rel_or (Node.rel_find ?_ paired)
    (Node.rel_filter (rel_get_elem paired leaveOpen.index) ?_)) copying.last_part) ?_
  · intro argument otherArgument arguments
    rw [copying.argument_name_eq arguments]
  · intro argument otherArgument arguments
    rw [copying.argument_name_eq arguments]
  · intro value otherValue values
    rw [copying.text_eq values]

theorem is_called_on_eq_of_twin (twins : spelling.Twin left right)
    (kind : left.kind = .invocationExpression) (name : String) :
    Audit.isCalledOn left name = Audit.isCalledOn right name := by
  have receivers : Option.Rel spelling.Whole
      (left.callTarget?.bind Source.CallTarget.receiver)
      (right.callTarget?.bind Source.CallTarget.receiver) :=
    Node.rel_bind (twins.call_target (by rw [kind]; rfl)) Respelling.SameTarget.receivers
  apply Node.any_eq_of_rel receivers
  intro receiver otherReceiver pair
  exact copying.refers_to_eq pair name

theorem passes_to_eq_of_whole (whole : spelling.Whole left right) (name : String) :
    Audit.passesTo left name = Audit.passesTo right name := by
  unfold Audit.passesTo
  have paired := copying.arguments whole
  generalize left.arguments = items, right.arguments = others at paired
  induction paired with
  | nil => rfl
  | @cons argument otherArgument items others arguments _ ih =>
      rcases rel_cases (copying.last_part arguments) with
        ⟨absent, absent'⟩ | ⟨value, otherValue, found, found', values⟩
      · have missing : argument.argumentValue? = none := absent
        have otherMissing : otherArgument.argumentValue? = none := absent'
        rw [List.filterMap_cons_none missing, List.filterMap_cons_none otherMissing, ih]
      · have present : argument.argumentValue? = some value := found
        have otherPresent : otherArgument.argumentValue? = some otherValue := found'
        rw [List.filterMap_cons_some present, List.filterMap_cons_some otherPresent, List.any_cons,
          List.any_cons, copying.refers_to_eq values, ih]

theorem hands_back_eq (value : Node) (name : String) :
    value.handsBack name =
      (value.unwrapValue.kind == .identifier && value.unwrapValue.text == name ||
        value.unwrapValue.kind.isCreation && value.unwrapValue.arguments.any fun argument =>
          argument.argumentValue?.any fun passed => passed.handsBack name) := by
  rw [Bool.eq_iff_iff, Node.hands_back_iff]
  simp only [Bool.or_eq_true, Bool.and_eq_true, beq_iff_eq, List.any_eq_true, Option.any_eq_true]

theorem hands_back_eq_of_whole (whole : spelling.Whole left right) (name : String) :
    left.handsBack name = right.handsBack name := by
  induction size : left.tree.size using Nat.strongRecOn generalizing left right with
  | ind bound ih =>
      have inners := copying.unwrap_value whole
      have inside := Node.size_unwrap_value_le left
      have passed : (left.unwrapValue.arguments.any fun argument =>
            argument.argumentValue?.any fun passed => passed.handsBack name) =
          right.unwrapValue.arguments.any fun argument =>
            argument.argumentValue?.any fun passed => passed.handsBack name := by
        have paired : List.Forall₂ (fun argument otherArgument =>
            argument ∈ left.unwrapValue.arguments ∧ spelling.Whole argument otherArgument)
              left.unwrapValue.arguments right.unwrapValue.arguments :=
          (List.forall₂_and_left _ _).mpr ⟨fun _ member => member, copying.arguments inners⟩
        refine Declarations.forall₂_any_eq ?_ paired
        rintro argument otherArgument ⟨member, arguments⟩
        rcases rel_cases (copying.last_part arguments) with
          ⟨absent, absent'⟩ | ⟨value, otherValue, found, found', values⟩
        · rw [Node.argumentValue?, Node.argumentValue?, absent, absent']
        · have inArgument := Node.size_lt_of_argument_value found
          have inCall := Node.size_lt_of_mem_arguments member
          rw [Node.argumentValue?, Node.argumentValue?, found, found', Option.any_some,
            Option.any_some]
          exact ih value.tree.size (by omega) values rfl
      rw [hands_back_eq, hands_back_eq right, passed, copying.kind_eq inners,
        copying.text_eq inners]

theorem forall₂_invocations_in (roots : spelling.Twin left right) :
    List.Forall₂ (fun node other => node.kind = .invocationExpression ∧ spelling.Twin node other)
      (left.descendantsOf .invocationExpression) (right.descendantsOf .invocationExpression) := by
  apply (List.forall₂_and_left _ _).mpr
  refine ⟨?_, roots.descendants_of .invocationExpression (by decide) (by decide) (by decide)⟩
  intro node member
  exact eq_of_beq (List.mem_filter.mp member).2

theorem is_declared_name_eq_of_twin (twins : spelling.Twin left right) :
    Region.isDeclaredName left = Region.isDeclaredName right := by
  unfold Region.isDeclaredName
  rcases rel_cases (twins.parent_of .variableDeclarator (by decide) (by decide)) with
    ⟨absent, absent'⟩ | ⟨declarator, other, found, found', declarators⟩
  · rw [absent, absent', Option.any_none, Option.any_none]
  · have kind := (Node.parent_of_eq_some_iff.mp found).2
    have whole := declarators.whole (by rw [kind]; rfl)
    rw [found, found', Option.any_some, Option.any_some]
    apply Node.any_eq_of_rel (copying.declaration_name whole)
    intro name otherName names
    exact twins.same_eq names.1

section Scope

variable {region otherRegion : Region} (roots : spelling.Twin region.root otherRegion.root)

include roots

theorem forall₂_invocations :
    List.Forall₂ (fun node other => node.kind = .invocationExpression ∧ spelling.Twin node other)
      region.invocations otherRegion.invocations :=
  forall₂_invocations_in roots

theorem forall₂_creations :
    List.Forall₂ (fun node other => node.kind.isConstruction = true ∧ spelling.Twin node other)
      region.creations otherRegion.creations := by
  apply (List.forall₂_and_left _ _).mpr
  refine ⟨?_, roots.filter_descendants Kind.isConstruction rfl rfl rfl⟩
  intro node member
  exact (List.mem_filter.mp member).2

theorem forall₂_using_statements :
    List.Forall₂ spelling.Whole region.usingStatements otherRegion.usingStatements := by
  have paired : List.Forall₂ spelling.Twin region.usingStatements otherRegion.usingStatements := by
    apply Lined.filter _ _ _ roots.descendants
    · intro node other pair
      rw [← pair.kind_eq]
      by_cases isLocal : node.kind = .localDeclarationStatement
      · rw [copying.is_using_declaration_eq (pair.whole (by rw [isLocal]; rfl))]
      · have otherLocal : other.kind ≠ .localDeclarationStatement := by
          rw [← pair.kind_eq]
          exact isLocal
        rw [Node.isUsingDeclaration, Node.isUsingDeclaration, beq_false_of_ne isLocal,
          beq_false_of_ne otherLocal, Bool.false_and, Bool.false_and]
    · intro node isArrow
      simp [Node.isUsingDeclaration, isArrow]
    · intro node wraps
      rcases wraps.kind_cases with kind | kind <;> simp [Node.isUsingDeclaration, kind]
  have apart : ∀ node ∈ region.usingStatements, node.kind.surroundsAccessor = false := by
    intro node member
    rcases Bool.or_eq_true_iff.mp (List.mem_filter.mp member).2 with isUsing | isDeclaration
    · rw [eq_of_beq isUsing]
      rfl
    · rw [eq_of_beq (Bool.and_eq_true_iff.mp isDeclaration).1]
      rfl
  have chosen : List.Forall₂ (fun node other =>
      node.kind.surroundsAccessor = false ∧ spelling.Twin node other)
        region.usingStatements otherRegion.usingStatements :=
    (List.forall₂_and_left _ _).mpr ⟨apart, paired⟩
  exact chosen.imp fun _ _ pair => pair.2.whole pair.1

theorem forall₂_header_references (name : String) :
    List.Forall₂ spelling.Twin (region.headerReferences name)
      (otherRegion.headerReferences name) := by
  have headers : List.Forall₂ spelling.Whole (region.usingStatements.flatMap Node.usingHeader)
      (otherRegion.usingStatements.flatMap Node.usingHeader) :=
    List.rel_flatMap (forall₂_using_statements roots) fun _ _ whole => copying.using_header whole
  have inHeaders : spelling.Lined
      ((region.usingStatements.flatMap Node.usingHeader).flatMap Node.descendants)
      ((otherRegion.usingStatements.flatMap Node.usingHeader).flatMap Node.descendants) := by
    apply Lined.flat_map (headers.imp fun _ _ whole => whole.1)
    intro node _ other pair
    exact pair.descendants
  apply Lined.filter _ _ _ inHeaders
  · intro node other pair
    rw [← pair.kind_eq]
    by_cases kind : node.kind = .identifier
    · rw [is_declared_name_eq_of_twin pair, copying.text_eq (pair.whole (by rw [kind]; rfl))]
    · simp only [beq_false_of_ne kind, Bool.false_and]
  · intro node isArrow
    rw [isArrow]
    rfl
  · intro node wraps
    rcases wraps.kind_cases with kind | kind
    · rw [kind]
      rfl
    · rw [kind]
      rfl

/-- The statement of the long form starts before anything in the value has ended, so it hands
back no local that the value fills. -/
theorem returns_after_eq_of_twin (values : spelling.Twin left right)
    (inside : spelling.InValue left) (name : String) :
    region.returnsAfter name left.stop = otherRegion.returnsAfter name right.stop := by
  unfold Region.returnsAfter Region.returns Node.descendantsOf
  rw [List.any_filter, List.any_filter]
  apply Lined.any_eq _ _ _ roots.descendants
  · intro node other pair
    rw [← pair.kind_eq]
    by_cases kind : node.kind = .returnStatement
    · have whole := pair.whole (by rw [kind]; rfl)
      have hands : (node.operand?.any fun value => value.handsBack name) =
          other.operand?.any fun value => value.handsBack name := by
        apply Node.any_eq_of_rel (copying.first_part whole)
        intro value otherValue operands
        exact hands_back_eq_of_whole operands name
      have order : decide (left.stop ≤ node.start) = decide (right.stop ≤ other.start) :=
        decide_eq_decide.mpr (values.stop.le_iff pair.start)
      rw [hands, order]
    · rw [beq_false_of_ne kind, Bool.false_and, Bool.false_and]
  · intro node isArrow
    rw [isArrow]
    rfl
  · intro node wraps
    by_cases kind : node.kind = .returnStatement
    · have early := wraps.start_lt_stop kind inside values
      have notAfter : decide (right.stop ≤ node.start) = false := by
        rw [decide_eq_false_iff_not]
        omega
      rw [notAfter, Bool.false_and, Bool.and_false]
    · rw [beq_false_of_ne kind, Bool.false_and]

end Scope

section Asking

variable {audit other : Audit} (agrees : Agrees spelling audit other)

include agrees

theorem invocation_covered_eq_of_twin (twins : spelling.Twin left right) (rules : List TypeRule) :
    audit.invocationCovered left rules = other.invocationCovered right rules := by
  unfold Audit.invocationCovered
  rw [← twins.kind_eq]
  by_cases kind : left.kind = .invocationExpression
  · rw [agrees.symbolOf twins (Or.inl kind)]
  · rw [beq_false_of_ne kind, Bool.false_and, Bool.false_and]

theorem tracks_ownership_eq_of_twin (twins : spelling.Twin left right) :
    audit.tracksOwnership left = other.tracksOwnership right := by
  unfold Audit.tracksOwnership
  rw [agrees.rules]
  exact invocation_covered_eq_of_twin agrees twins _

theorem is_ignored_factory_eq_of_twin (twins : spelling.Twin left right) :
    audit.isIgnoredFactory left = other.isIgnoredFactory right := by
  unfold Audit.isIgnoredFactory
  rw [agrees.rules]
  exact invocation_covered_eq_of_twin agrees twins _

theorem search_within_eq_of_twin (twins : spelling.Twin left right) (count : Nat) :
    (audit.searchWithin count left).map Audit.ChainEnd.takesOwnership =
      (other.searchWithin count right).map Audit.ChainEnd.takesOwnership := by
  induction count generalizing left right with
  | zero =>
      unfold Audit.searchWithin
      rw [tracks_ownership_eq_of_twin agrees twins]
      split
      · rfl
      · rcases rel_cases (rel_next_link twins) with
          ⟨absent, absent'⟩ | ⟨next, further, found, found', -⟩
        · rw [absent, absent']
          rfl
        · rw [found, found']
  | succ count ih =>
      unfold Audit.searchWithin
      rw [tracks_ownership_eq_of_twin agrees twins]
      split
      · rfl
      · rcases rel_cases (rel_next_link twins) with
          ⟨absent, absent'⟩ | ⟨next, further, found, found', links⟩
        · rw [absent, absent']
          rfl
        · rw [found, found']
          exact ih links

theorem chain_tracks_eq_of_twin (twins : spelling.Twin left right) :
    audit.chainTracks? left = other.chainTracks? right := by
  have deeper := depth_le_of_twin twins
  have alike := search_within_eq_of_twin agrees twins (right.depth + 1)
  rwa [Audit.search_within_of_le (by omega)] at alike

theorem is_tracked_construction_eq_of_twin (twins : spelling.Twin left right)
    (creates : left.kind.isCreation = true) :
    audit.isTrackedConstruction left = other.isTrackedConstruction right := by
  have whole := twins.whole (surrounds_accessor_of_is_creation creates)
  unfold Audit.isTrackedConstruction
  rw [agrees.rules, agrees.typeOf twins (Or.inl creates)]
  split
  · rfl
  · simp only [leaves_open_eq_of_whole whole]

theorem is_release_call_on_eq_of_twin (twins : spelling.Twin left right)
    (kind : left.kind = .invocationExpression) (name : String) :
    audit.isReleaseCallOn left name = other.isReleaseCallOn right name := by
  unfold Audit.isReleaseCallOn
  rw [agrees.rules, twins.invoked_name_eq (by rw [kind]; rfl), is_called_on_eq_of_twin twins kind]

theorem is_release_equivalent_eq_of_twin (twins : spelling.Twin left right)
    (kind : left.kind = .invocationExpression) (name : String) (resource : TypeSymbol) :
    audit.isReleaseEquivalent left name resource =
      other.isReleaseEquivalent right name resource := by
  unfold Audit.isReleaseEquivalent
  rw [agrees.rules, twins.invoked_name_eq (by rw [kind]; rfl), is_called_on_eq_of_twin twins kind]

theorem transfers_to_call_eq_of_twin (twins : spelling.Twin left right)
    (kind : left.kind = .invocationExpression) (name : String) :
    audit.transfersToCall left name = other.transfersToCall right name := by
  have whole := twins.whole (by rw [kind]; rfl)
  unfold Audit.transfersToCall
  rw [passes_to_eq_of_whole whole, tracks_ownership_eq_of_twin agrees twins,
    is_called_on_eq_of_twin twins kind, agrees.symbolOf twins (Or.inl kind)]

theorem invocation_releases_eq_of_twin (twins : spelling.Twin left right)
    (kind : left.kind = .invocationExpression) (name : String) (resource : TypeSymbol) :
    audit.invocationReleases left name resource = other.invocationReleases right name resource := by
  unfold Audit.invocationReleases
  rw [is_release_call_on_eq_of_twin agrees twins kind,
    transfers_to_call_eq_of_twin agrees twins kind,
    is_release_equivalent_eq_of_twin agrees twins kind]

theorem construction_releases_eq_of_twin (twins : spelling.Twin left right)
    (creates : left.kind.isCreation = true) (name : String) :
    audit.constructionReleases left name = other.constructionReleases right name := by
  unfold Audit.constructionReleases
  rw [passes_to_eq_of_whole (twins.whole (surrounds_accessor_of_is_creation creates)),
    is_tracked_construction_eq_of_twin agrees twins creates]

theorem header_reference_releases_eq_of_twin (twins : spelling.Twin left right) :
    audit.headerReferenceReleases left = other.headerReferenceReleases right := by
  unfold Audit.headerReferenceReleases
  rcases rel_cases twins.value_root.argument_owner with
    ⟨absent, absent'⟩ | ⟨owner, otherOwner, found, found', owners⟩
  · rw [absent, absent']
  · rw [found, found']
    dsimp only
    rw [← owners.kind_eq]
    by_cases constructs : owner.kind.isConstruction = true
    · rw [is_tracked_construction_eq_of_twin agrees owners
      (is_creation_of_is_construction constructs)]
    · simp [constructs]

theorem rel_region_at (twins : spelling.Twin left right) :
    Option.Rel (fun region otherRegion : Region => spelling.Twin region.root otherRegion.root)
      (audit.regionAt? left) (other.regionAt? right) := by
  unfold Audit.regionAt?
  rw [agrees.scope, agrees.otherScope]
  exact Node.rel_map twins.enclosing_scope id

theorem is_released_locally_eq_of_twin (sites : spelling.Twin left right) (name : String)
    (resource : TypeSymbol) :
    audit.isReleasedLocally left name resource = other.isReleasedLocally right name resource := by
  unfold Audit.isReleasedLocally
  rcases rel_cases (rel_region_at agrees sites) with
    ⟨absent, absent'⟩ | ⟨region, otherRegion, found, found', roots⟩
  · rw [absent, absent']
  · have headers : (region.headerReferences name).any audit.headerReferenceReleases =
        (otherRegion.headerReferences name).any other.headerReferenceReleases := by
      refine Declarations.forall₂_any_eq ?_ (forall₂_header_references roots name)
      intro reference otherReference references
      exact header_reference_releases_eq_of_twin agrees references
    have calls : (region.invocations.any fun invocation =>
          audit.invocationReleases invocation name resource) =
        otherRegion.invocations.any fun invocation =>
          other.invocationReleases invocation name resource := by
      refine Declarations.forall₂_any_eq ?_ (forall₂_invocations roots)
      rintro invocation otherInvocation ⟨kind, invocations⟩
      exact invocation_releases_eq_of_twin agrees invocations kind name resource
    have creations : (region.creations.any fun creation =>
          audit.constructionReleases creation name) =
        otherRegion.creations.any fun creation => other.constructionReleases creation name := by
      refine Declarations.forall₂_any_eq ?_ (forall₂_creations roots)
      rintro creation otherCreation ⟨constructs, creations⟩
      exact construction_releases_eq_of_twin agrees creations
        (is_creation_of_is_construction constructs) name
    rw [found, found']
    dsimp only
    rw [headers, calls, creations]

theorem forall₂_release_designated_methods (twins : spelling.Twin left right) :
    List.Forall₂ spelling.Whole (audit.releaseDesignatedMethods left)
      (other.releaseDesignatedMethods right) := by
  unfold Audit.releaseDesignatedMethods
  rw [agrees.rules]
  rcases rel_cases twins.enclosing_type with
    ⟨absent, absent'⟩ | ⟨type, otherType, isType, isOtherType, types⟩
  · rw [absent, absent']
    exact .nil
  · have declares : type.kind.isTypeDeclaration = true := (List.find?_some isType :)
    have notAccessor : type.kind ≠ .accessorDeclaration := by
      intro kind
      rw [kind] at declares
      cases declares
    have notList : type.kind ≠ .accessorList := by
      intro kind
      rw [kind] at declares
      cases declares
    rw [isType, isOtherType, Option.bind_some, Option.bind_some]
    rcases rel_cases (types.body (types.place_ne_hole notAccessor)) with
      ⟨absent, absent'⟩ | ⟨body, otherBody, isBody, isOtherBody, bodies⟩
    · rw [absent, absent']
      exact .nil
    · have notGetter := bodies.place_ne_hole_of_parent (Node.parent_of_body isBody) notList
      have methods : List.Forall₂ spelling.Whole (body.partsOf .methodDeclaration)
          (otherBody.partsOf .methodDeclaration) := by
        have apart : ∀ method ∈ body.partsOf .methodDeclaration,
            method.kind.surroundsAccessor = false := by
          intro method member
          rw [eq_of_beq (List.mem_filter.mp member).2]
          rfl
        have chosen : List.Forall₂ (fun method otherMethod =>
            method.kind.surroundsAccessor = false ∧ spelling.Twin method otherMethod)
              (body.partsOf .methodDeclaration) (otherBody.partsOf .methodDeclaration) :=
          (List.forall₂_and_left _ _).mpr ⟨apart, bodies.parts_of notGetter .methodDeclaration⟩
        exact chosen.imp fun _ _ pair => pair.2.whole pair.1
      rw [isBody, isOtherBody]
      apply List.rel_filter _ methods
      intro method otherMethod pair
      have names : (method.declarationName?.any fun name =>
            other.rules.isReleaseDesignated name.text) =
          otherMethod.declarationName?.any fun name =>
            other.rules.isReleaseDesignated name.text := by
        apply Node.any_eq_of_rel (copying.declaration_name pair)
        intro name otherName spelled
        rw [copying.text_eq spelled]
      simp only [names]

theorem is_member_released_eq_of_twin (sites : spelling.Twin left right) (name : String)
    (resource : TypeSymbol) :
    audit.isMemberReleased left name resource = other.isMemberReleased right name resource := by
  unfold Audit.isMemberReleased
  refine Declarations.forall₂_any_eq ?_ (forall₂_release_designated_methods agrees sites)
  intro method otherMethod methods
  refine Declarations.forall₂_any_eq ?_ (forall₂_invocations_in methods.1)
  rintro invocation otherInvocation ⟨kind, invocations⟩
  rw [is_release_call_on_eq_of_twin agrees invocations kind,
    is_release_equivalent_eq_of_twin agrees invocations kind]

theorem returned_later_eq_of_twin (values : spelling.Twin left right)
    (inside : spelling.InValue left) (name : String) :
    audit.returnedLater left name = other.returnedLater right name := by
  unfold Audit.returnedLater
  apply Node.any_eq_of_rel (rel_region_at agrees values)
  intro region otherRegion roots
  exact returns_after_eq_of_twin roots values inside name

end Asking

end ReleaseAudit.Verdict
