import ReleaseAudit.Proofs.Rules.Quieter
import ReleaseAudit.Proofs.Verdict.Stream

/-!
# Release knowledge only removes diagnostics

Two audits of one model are compared, the rules of the first being quieter.
Whatever the louder audit takes for a release, the quieter one does too, and a
search that ends for the louder one ends for the quieter one. The placement of a
value differs in one way only: a call may have become a release call, and then
the value counts as released. Hence every node keeps its diagnostic or loses it.
-/

namespace ReleaseAudit.Verdict

set_option autoImplicit false

open Inference (Model)
open Rules (Ruleset TypeRule)
open Source (Document Node)
open ReleaseAudit.Types (TypeSymbol)

namespace Audit

section Quieter

variable {model : Model} {quiet loud : Ruleset}

theorem invocation_covered_of_subset {less more : Audit} {invocation : Node}
    {few many : List TypeRule} (sameModel : less.model = more.model) (subset : few ⊆ many)
    (covered : less.invocationCovered invocation few = true) :
    more.invocationCovered invocation many = true := by
  unfold invocationCovered at covered ⊢
  rw [← sameModel]
  simp only [Bool.and_eq_true, Option.any_eq_true, List.any_eq_true] at covered ⊢
  obtain ⟨isInvocation, symbol, resolved, isMethod, rule, member, covers⟩ := covered
  exact ⟨isInvocation, symbol, resolved, isMethod, rule, subset member, covers⟩

theorem tracks_ownership_of_quieter (quieter : quiet.Quieter loud) {invocation : Node}
    (tracks : tracksOwnership ⟨model, loud⟩ invocation = true) :
    tracksOwnership ⟨model, quiet⟩ invocation = true :=
  invocation_covered_of_subset rfl quieter.ownershipTransfer tracks

theorem is_ignored_factory_of_quieter (quieter : quiet.Quieter loud) {invocation : Node}
    (ignored : isIgnoredFactory ⟨model, loud⟩ invocation = true) :
    isIgnoredFactory ⟨model, quiet⟩ invocation = true :=
  invocation_covered_of_subset rfl quieter.ignoredFactories ignored

/-- The rule that decides a construction is the same on both sides, and with it the question
whether the caller keeps the resource. -/
theorem is_tracked_construction_of_quieter (quieter : quiet.Quieter loud) {creation : Node}
    (tracked : isTrackedConstruction ⟨model, loud⟩ creation = true) :
    isTrackedConstruction ⟨model, quiet⟩ creation = true := by
  simp only [isTrackedConstruction] at tracked ⊢
  cases resolved : model.typeOf creation with
  | none => simp [resolved] at tracked
  | some type =>
      cases found : loud.trackingRule? type with
      | none => simp [resolved, found] at tracked
      | some rule => simpa [resolved, found, quieter.tracking_rule found] using tracked

/-- The quieter search follows the louder one, and may end earlier at a link that takes
ownership. -/
theorem Search.of_quieter (quieter : quiet.Quieter loud) {first : Node} {visited : List Node}
    {result : ChainEnd} (search : Search ⟨model, loud⟩ first visited result) :
    ∃ fewer ending, Search ⟨model, quiet⟩ first fewer ending ∧
      (result.takesOwnership = true → ending.takesOwnership = true) := by
  induction search with
  | @tracking link tracks =>
      exact ⟨[link], .tracking link, .tracking (tracks_ownership_of_quieter quieter tracks), id⟩
  | @last link passes ends =>
      cases tracks : tracksOwnership ⟨model, quiet⟩ link with
      | true => exact ⟨[link], .tracking link, .tracking tracks, fun _ => rfl⟩
      | false => exact ⟨[link], .last link, .last tracks ends, id⟩
  | @next link further visited result passes isNext rest ih =>
      cases tracks : tracksOwnership ⟨model, quiet⟩ link with
      | true => exact ⟨[link], .tracking link, .tracking tracks, fun _ => rfl⟩
      | false =>
          obtain ⟨fewer, ending, search, keeps⟩ := ih
          exact ⟨link :: fewer, ending, .next tracks isNext search, keeps⟩

theorem chain_tracks_of_quieter (quieter : quiet.Quieter loud) {first : Node} {released : Bool}
    (tracks : chainTracks? ⟨model, loud⟩ first = some released) :
    ∃ more, chainTracks? ⟨model, quiet⟩ first = some more ∧ (released = true → more = true) := by
  obtain ⟨result, found, rfl⟩ := Option.map_eq_some_iff.mp tracks
  obtain ⟨visited, search⟩ := find_tracking_link_eq_some_iff.mp found
  obtain ⟨fewer, ending, quietSearch, keeps⟩ := search.of_quieter quieter
  refine ⟨ending.takesOwnership, ?_, keeps⟩
  rw [chainTracks?, find_tracking_link_eq_some_iff.mpr ⟨fewer, quietSearch⟩]
  rfl

theorem releases_receiver_of_quieter (quieter : quiet.Quieter loud) {invocation : Node}
    (releases : releasesReceiver ⟨model, loud⟩ invocation = true) :
    releasesReceiver ⟨model, quiet⟩ invocation = true := by
  simp only [releasesReceiver, Option.any_eq_true] at releases ⊢
  obtain ⟨name, invoked, known⟩ := releases
  exact ⟨name, invoked, quieter.is_release_method known⟩

theorem is_release_call_on_of_quieter (quieter : quiet.Quieter loud) {invocation : Node}
    {name : String} (releases : isReleaseCallOn ⟨model, loud⟩ invocation name = true) :
    isReleaseCallOn ⟨model, quiet⟩ invocation name = true := by
  simp only [isReleaseCallOn, Bool.and_eq_true, Option.any_eq_true] at releases ⊢
  obtain ⟨⟨invoked, isInvoked, known⟩, called⟩ := releases
  exact ⟨⟨invoked, isInvoked, quieter.is_release_method known⟩, called⟩

theorem is_release_equivalent_of_quieter (quieter : quiet.Quieter loud) {invocation : Node}
    {name : String} {resource : TypeSymbol}
    (releases : isReleaseEquivalent ⟨model, loud⟩ invocation name resource = true) :
    isReleaseEquivalent ⟨model, quiet⟩ invocation name resource = true := by
  simp only [isReleaseEquivalent, Bool.and_eq_true, Option.any_eq_true, List.any_eq_true]
    at releases ⊢
  obtain ⟨called, invoked, isInvoked, rule, member, applies⟩ := releases
  exact ⟨called, invoked, isInvoked, rule, quieter.releaseEquivalent member, applies⟩

theorem transfers_to_call_of_quieter (quieter : quiet.Quieter loud) {invocation : Node}
    {name : String} (transfers : transfersToCall ⟨model, loud⟩ invocation name = true) :
    transfersToCall ⟨model, quiet⟩ invocation name = true := by
  simp only [transfersToCall] at transfers ⊢
  split at transfers
  · next passed =>
      rw [if_pos passed]
      exact tracks_ownership_of_quieter quieter transfers
  · next notPassed =>
      rw [if_neg notPassed]
      simp only [Bool.and_eq_true] at transfers ⊢
      obtain ⟨⟨called, tracks⟩, isExtension⟩ := transfers
      exact ⟨⟨called, tracks_ownership_of_quieter quieter tracks⟩, isExtension⟩

theorem invocation_releases_of_quieter (quieter : quiet.Quieter loud) {invocation : Node}
    {name : String} {resource : TypeSymbol}
    (releases : invocationReleases ⟨model, loud⟩ invocation name resource = true) :
    invocationReleases ⟨model, quiet⟩ invocation name resource = true := by
  simp only [invocationReleases, Bool.or_eq_true] at releases ⊢
  rcases releases with (called | transferred) | equivalent
  · exact Or.inl (Or.inl (is_release_call_on_of_quieter quieter called))
  · exact Or.inl (Or.inr (transfers_to_call_of_quieter quieter transferred))
  · exact Or.inr (is_release_equivalent_of_quieter quieter equivalent)

theorem construction_releases_of_quieter (quieter : quiet.Quieter loud) {creation : Node}
    {name : String} (releases : constructionReleases ⟨model, loud⟩ creation name = true) :
    constructionReleases ⟨model, quiet⟩ creation name = true := by
  simp only [constructionReleases, Bool.and_eq_true] at releases ⊢
  exact ⟨releases.1, is_tracked_construction_of_quieter quieter releases.2⟩

theorem header_reference_releases_of_quieter (quieter : quiet.Quieter loud) {reference : Node}
    (releases : headerReferenceReleases ⟨model, loud⟩ reference = true) :
    headerReferenceReleases ⟨model, quiet⟩ reference = true := by
  simp only [headerReferenceReleases] at releases ⊢
  split at releases
  · simp only [Bool.or_eq_true] at releases ⊢
    exact releases.imp_right (is_tracked_construction_of_quieter quieter)
  · exact releases

theorem is_released_locally_of_quieter (quieter : quiet.Quieter loud) {site : Node} {name : String}
    {resource : TypeSymbol}
    (released : isReleasedLocally ⟨model, loud⟩ site name resource = true) :
    isReleasedLocally ⟨model, quiet⟩ site name resource = true := by
  simp only [isReleasedLocally, regionAt?] at released ⊢
  split at released
  · exact released
  · simp only [Bool.or_eq_true, List.any_eq_true] at released ⊢
    rcases released with (⟨reference, member, inHeader⟩ | ⟨invocation, member, called⟩) |
      ⟨creation, member, constructed⟩
    · exact Or.inl (Or.inl ⟨reference, member,
      header_reference_releases_of_quieter quieter inHeader⟩)
    · exact Or.inl (Or.inr ⟨invocation, member, invocation_releases_of_quieter quieter called⟩)
    · exact Or.inr ⟨creation, member, construction_releases_of_quieter quieter constructed⟩

theorem mem_release_designated_methods_of_quieter (quieter : quiet.Quieter loud)
    {node method : Node} (member : method ∈ releaseDesignatedMethods ⟨model, loud⟩ node) :
    method ∈ releaseDesignatedMethods ⟨model, quiet⟩ node := by
  simp only [releaseDesignatedMethods] at member ⊢
  split at member
  · cases member
  · simp only [List.mem_filter, Option.any_eq_true] at member ⊢
    obtain ⟨inBody, name, isName, designated⟩ := member
    exact ⟨inBody, name, isName, quieter.is_release_designated designated⟩

theorem is_member_released_of_quieter (quieter : quiet.Quieter loud) {site : Node} {name : String}
    {resource : TypeSymbol}
    (released : isMemberReleased ⟨model, loud⟩ site name resource = true) :
    isMemberReleased ⟨model, quiet⟩ site name resource = true := by
  simp only [isMemberReleased, List.any_eq_true, Bool.or_eq_true] at released ⊢
  obtain ⟨method, designated, invocation, inMethod, releases⟩ := released
  refine ⟨method, mem_release_designated_methods_of_quieter quieter designated, invocation,
    inMethod, ?_⟩
  exact releases.imp (is_release_call_on_of_quieter quieter)
    (is_release_equivalent_of_quieter quieter)

/-- All questions about a placement but the first ask the model and the tree alone. -/
theorem place_value_of_quieter (quieter : quiet.Quieter loud) (root : Node) :
    placeValue ⟨model, quiet⟩ root = .releasedImmediately ∨
      placeValue ⟨model, quiet⟩ root = placeValue ⟨model, loud⟩ root := by
  by_cases released : root.invocationOnReceiver?.any (releasesReceiver ⟨model, quiet⟩) = true
  · exact Or.inl (if_pos released)
  · have unreleased : ¬root.invocationOnReceiver?.any (releasesReceiver ⟨model, loud⟩) = true := by
      intro known
      apply released
      simp only [Option.any_eq_true] at known ⊢
      obtain ⟨invocation, chained, releases⟩ := known
      exact ⟨invocation, chained, releases_receiver_of_quieter quieter releases⟩
    right
    rw [placeValue, placeValue, if_neg released, if_neg unreleased]
    rfl

theorem of_release_of_imp {more fewer : Bool} (keeps : fewer = true → more = true) :
    Decision.ofRelease more = .released ∨
      Decision.ofRelease more = Decision.ofRelease fewer := by
  cases more <;> cases fewer <;> simp_all [Decision.ofRelease]

theorem of_named_of_imp {more fewer : Bool} (holder : Holder) (name : String)
    (keeps : fewer = true → more = true) :
    Decision.ofNamed holder name more = .released ∨
      Decision.ofNamed holder name more = Decision.ofNamed holder name fewer := by
  cases more <;> cases fewer <;> simp_all [Decision.ofNamed]

theorem decide_of_quieter (quieter : quiet.Quieter loud) {placement : Placement} {site : Node}
    {resource : TypeSymbol} {decision : Decision}
    (decided : decide? ⟨model, loud⟩ placement site resource = some decision) :
    decide? ⟨model, quiet⟩ placement site resource = some .released ∨
      decide? ⟨model, quiet⟩ placement site resource = some decision := by
  have kept (holder : Holder) (name : Node) :
      decideMember ⟨model, quiet⟩ site name resource holder = .released ∨
        decideMember ⟨model, quiet⟩ site name resource holder =
          decideMember ⟨model, loud⟩ site name resource holder :=
    of_named_of_imp holder name.text (is_member_released_of_quieter quieter)
  have lift {more fewer : Decision} (known : more = .released ∨ more = fewer) :
      some more = some .released ∨ some more = some fewer :=
    known.imp (congrArg some) (congrArg some)
  cases placement with
  | awaitedResult | releasedImmediately | returnInBlock | returnArrowBody | returnInLambda
  | returnLater | usingHeader => exact Or.inl rfl
  | memberAssignment | anonymous => exact Or.inr decided
  | propertyReturn property | propertyExpressionBody property | autoProperty property =>
      simp only [decide?] at decided ⊢
      split at decided
      · cases decided
        exact lift (kept .property _)
      · exact Or.inr decided
  | argumentOfInvocation invocation =>
      cases decided
      exact lift (of_release_of_imp (tracks_ownership_of_quieter quieter))
  | methodChainLink invocation =>
      obtain ⟨released, tracks, rfl⟩ := Option.map_eq_some_iff.mp decided
      obtain ⟨more, quietTracks, keeps⟩ := chain_tracks_of_quieter quieter tracks
      rw [decide?, quietTracks]
      exact lift (of_release_of_imp keeps)
  | argumentOfConstruction creation | collectionInitializerElement creation =>
      cases decided
      exact lift (of_release_of_imp (is_tracked_construction_of_quieter quieter))
  | arrayInitializerElement owner =>
      cases decided
      refine lift (of_release_of_imp ?_)
      simp only [Option.any_eq_true]
      rintro ⟨construction, received, tracked⟩
      exact ⟨construction, received, is_tracked_construction_of_quieter quieter tracked⟩
  | localDeclaration name | localAssignment name =>
      cases decided
      exact lift (of_named_of_imp _ _ (is_released_locally_of_quieter quieter))
  | fieldDeclaration name | fieldAssignment name =>
      cases decided
      exact lift (kept .field name)
  | propertyAssignment name =>
      cases decided
      exact lift (kept .property name)

theorem origin_of_of_quieter (quieter : quiet.Quieter loud) (node : Node) :
    originOf? ⟨model, quiet⟩ node = none ∨
      originOf? ⟨model, quiet⟩ node = originOf? ⟨model, loud⟩ node := by
  simp only [originOf?]
  split
  · exact Or.inr rfl
  · split
    · split
      · exact Or.inl rfl
      · next creates =>
          right
          rw [if_neg]
          intro silent
          apply creates
          simp only [Bool.or_eq_true] at silent ⊢
          exact silent.imp (is_ignored_factory_of_quieter quieter)
            (tracks_ownership_of_quieter quieter)
    · exact Or.inl rfl

/-- A diagnostic names no rule but the identifier and the severity, which both sides share. -/
theorem report_of_quieter (quieter : quiet.Quieter loud) (document : Document) (node : Node)
    (origin : Origin) (type : TypeSymbol) (decision : Decision) :
    report ⟨model, quiet⟩ document node origin type decision =
      report ⟨model, loud⟩ document node origin type decision := by
  cases decision with
  | released => rfl
  | unreleased holder name => simp only [report, quieter.diagnosticId, quieter.severity]

/-- A resource of the quieter audit is one of the louder audit, placed alike or released. -/
theorem resource_of_quieter (quieter : quiet.Quieter loud) {node : Node} {origin : Origin}
    {placement : Placement} {type : TypeSymbol}
    (created : resourceOf? ⟨model, quiet⟩ node = some (origin, placement, type)) :
    ∃ louder, resourceOf? ⟨model, loud⟩ node = some (origin, louder, type) ∧
      (placement = .releasedImmediately ∨ placement = louder) := by
  obtain ⟨isOrigin, typed, needed, rfl⟩ := (resource_of_eq_some_iff _).mp created
  have origins : originOf? ⟨model, quiet⟩ node = none ∨ _ := origin_of_of_quieter quieter node
  rcases origins with noOrigin | sameOrigin
  · cases noOrigin.symm.trans isOrigin
  · refine ⟨placeValue ⟨model, loud⟩ node.createdValue.valueRoot, ?_,
      place_value_of_quieter quieter _⟩
    exact (resource_of_eq_some_iff _).mpr
      ⟨sameOrigin.symm.trans isOrigin, typed, quieter.needs_release needed, rfl⟩

theorem diagnose_of_quieter (quieter : quiet.Quieter loud) {document : Document} {node : Node}
    {answer : Option Diagnostic} (answered : diagnose? ⟨model, loud⟩ document node = some answer) :
    diagnose? ⟨model, quiet⟩ document node = some none ∨
      diagnose? ⟨model, quiet⟩ document node = some answer := by
  cases created : resourceOf? ⟨model, quiet⟩ node with
  | none =>
      left
      rw [diagnose?, created]
  | some resource =>
      obtain ⟨origin, placement, type⟩ := resource
      obtain ⟨louder, louderCreated, placed⟩ := resource_of_quieter quieter created
      rw [diagnose?, louderCreated] at answered
      rw [diagnose?, created]
      obtain ⟨decision, decided, rfl⟩ := Option.map_eq_some_iff.mp answered
      dsimp only
      rcases placed with rfl | rfl
      · exact Or.inl rfl
      · rcases decide_of_quieter quieter decided with released | same
        · rw [released]
          exact Or.inl rfl
        · rw [same, Option.map_some, report_of_quieter quieter]
          exact Or.inr rfl

end Quieter

end Audit

section Quieter

variable {quiet loud : Ruleset} {model : Model}

theorem answers_of_quieter (quieter : quiet.Quieter loud) {document : Document}
    {sites : List Node} {answers : List (Option Diagnostic)}
    (answered : List.Forall₂
      (fun site answer => Audit.diagnose? ⟨model, loud⟩ document site = some answer)
      sites answers) :
    ∃ others, List.Forall₂
      (fun site answer => Audit.diagnose? ⟨model, quiet⟩ document site = some answer)
      sites others ∧ (others.filterMap id).Sublist (answers.filterMap id) := by
  induction answered with
  | nil => exact ⟨[], .nil, List.Sublist.refl _⟩
  | @cons site answer sites answers first _ ih =>
      obtain ⟨others, quietAnswered, fewer⟩ := ih
      rcases Audit.diagnose_of_quieter quieter first with silent | same
      · refine ⟨none :: others, .cons silent quietAnswered, ?_⟩
        cases answer with
        | none => exact fewer
        | some diagnostic => exact fewer.cons diagnostic
      · refine ⟨answer :: others, .cons same quietAnswered, ?_⟩
        cases answer with
        | none => exact fewer
        | some diagnostic => exact fewer.cons_cons diagnostic

theorem diagnose_document_of_quieter (quieter : quiet.Quieter loud) {document : Document}
    {found : List Diagnostic} (ended : diagnoseDocument? model loud document = some found) :
    ∃ fewer, diagnoseDocument? model quiet document = some fewer ∧ fewer.Sublist found := by
  obtain ⟨answers, answered, rfl⟩ := diagnose_document_eq_some_iff.mp ended
  obtain ⟨others, quietAnswered, fewer⟩ := answers_of_quieter quieter answered
  exact ⟨_, diagnose_document_eq_some_iff.mpr ⟨others, quietAnswered, rfl⟩, fewer⟩

theorem diagnose_with_of_quieter (quieter : quiet.Quieter loud) {documents : List Document}
    {found : List Diagnostic} (ended : diagnoseWith? model loud documents = some found) :
    ∃ fewer, diagnoseWith? model quiet documents = some fewer ∧ fewer.Sublist found := by
  simp only [diagnose_with_eq_some_iff] at ended ⊢
  obtain ⟨parts, paired, rfl⟩ := ended
  induction paired with
  | nil => exact ⟨[], ⟨[], .nil, rfl⟩, List.Sublist.refl _⟩
  | @cons document part documents parts first _ ih =>
      obtain ⟨_, ⟨others, quietPaired, rfl⟩, fewer⟩ := ih
      obtain ⟨share, quietEnded, smaller⟩ := diagnose_document_of_quieter quieter first
      exact ⟨_, ⟨share :: others, .cons quietEnded quietPaired, rfl⟩, smaller.append fewer⟩

theorem diagnose_all_of_quieter (quieter : quiet.Quieter loud) {documents : List Document}
    {found : List Diagnostic} (ended : diagnoseAll? loud documents = some found) :
    ∃ fewer, diagnoseAll? quiet documents = some fewer ∧ fewer.Sublist found := by
  unfold diagnoseAll? at ended ⊢
  rw [quieter.catalog]
  exact diagnose_with_of_quieter quieter ended

end Quieter

/-- Layers that add releases only take diagnostics away, and layers that add contracts only add
some. The diagnostics that stay keep their order and all of their fields. Added releases never keep
an audit from ending. Added contracts do exactly if the search for the owner of some creation does
not end. -/
theorem extend_diagnostics_sublist (settings layer : Settings) (rules layerRules : Ruleset)
    (built : Ruleset.ofSettings settings = .ok rules)
    (layerBuilt : Ruleset.ofSettings layer = .ok layerRules) :
    (layer.AddsReleases → ∃ extended, Ruleset.ofSettings (settings.extend layer) = .ok extended ∧
      (∀ (model : Model) (documents : List Document) (found : List Diagnostic),
        diagnoseWith? model rules documents = some found →
        ∃ fewer, diagnoseWith? model extended documents = some fewer ∧ fewer.Sublist found) ∧
      ∀ (documents : List Document) (found : List Diagnostic),
        diagnoseAll? rules documents = some found →
        ∃ fewer, diagnoseAll? extended documents = some fewer ∧ fewer.Sublist found) ∧
    (layer.AddsContracts → ∃ extended, Ruleset.ofSettings (settings.extend layer) = .ok extended ∧
      (∀ (model : Model) (documents : List Document),
        (diagnoseWith? model extended documents = none ↔
          ∃ document ∈ documents, ∃ site ∈ creationSites document,
            Audit.Endless ⟨model, extended⟩ site) ∧
        ∀ more, diagnoseWith? model extended documents = some more →
          ∃ found, diagnoseWith? model rules documents = some found ∧ found.Sublist more) ∧
      ∀ (documents : List Document) (more : List Diagnostic),
        diagnoseAll? extended documents = some more →
        ∃ found, diagnoseAll? rules documents = some found ∧ found.Sublist more) := by
  constructor
  · intro adds
    obtain ⟨extended, compiled, quieter⟩ :=
      Ruleset.extend_quieter_of_adds_releases built layerBuilt adds
    exact ⟨extended, compiled, fun _ _ _ => diagnose_with_of_quieter quieter,
      fun _ _ => diagnose_all_of_quieter quieter⟩
  · intro adds
    obtain ⟨extended, compiled, quieter⟩ :=
      Ruleset.quieter_extend_of_adds_contracts built layerBuilt adds
    exact ⟨extended, compiled,
      fun _ _ => ⟨diagnose_with_eq_none_iff, fun _ => diagnose_with_of_quieter quieter⟩,
      fun _ _ => diagnose_all_of_quieter quieter⟩

/-- The call `new D().Close()`. -/
def closedCreation : Document :=
  ⟨"closed.cs", "new D().Close()",
    .node ⟨.compilationUnit, true, none, 0, 15, "new D().Close()"⟩
      [.node ⟨.invocationExpression, true, none, 0, 15, "new D().Close()"⟩
        [.node ⟨.memberAccessExpression, true, some .function, 0, 13, "new D().Close"⟩
          [.node ⟨.objectCreationExpression, true, some .expression, 0, 7, "new D()"⟩ [],
            .node ⟨.identifier, true, some .name, 8, 13, "Close"⟩ []]]]⟩

def creationModel : Model :=
  Model.ofTexts [("new D()", ⟨"D", [], [], .classType⟩)] []

/-- A layer that makes `Close` a release silences the call, and a layer that makes `D` a contract
brings its diagnostic about. A layer that makes `P` a contract keeps the audit of `M()?.L` from
ending. -/
theorem extend_diagnostics_sublist_close :
    (∃ extended, Ruleset.ofSettings (Settings.extend { disposalContracts := ["D"] }
        { releaseMethods := ["Close"] }) = .ok extended ∧
      (∃ found fewer, diagnoseWith? creationModel
          (.withTables { disposalContracts := ["D"] } [] [] []) [closedCreation] = some found ∧
        diagnoseWith? creationModel extended [closedCreation] = some fewer ∧
        fewer.Sublist found ∧ found.length = 1) ∧
      diagnoseWith? creationModel extended [closedCreation] = some []) ∧
    ∃ extended, Ruleset.ofSettings (Settings.extend {} { disposalContracts := ["D", "P"] }) =
        .ok extended ∧
      (∃ found more,
        diagnoseWith? creationModel (.withTables {} [] [] []) [closedCreation] = some found ∧
        diagnoseWith? creationModel extended [closedCreation] = some more ∧
        found.Sublist more ∧ more.map Diagnostic.typeName = ["D"]) ∧
      diagnoseWith? uniformModel (.withTables {} [] [] []) [readingDocument] = some [] ∧
      diagnoseWith? uniformModel extended [readingDocument] = none := by
  constructor
  · obtain ⟨extended, compiled, shrinks, -⟩ :=
      (extend_diagnostics_sublist { disposalContracts := ["D"] } { releaseMethods := ["Close"] }
        _ _ rfl rfl).1 (by decide)
    have loud : (diagnoseWith? creationModel (.withTables { disposalContracts := ["D"] } [] [] [])
        [closedCreation]).map List.length = some 1 := by decide +kernel
    obtain ⟨found, ended, isFound⟩ := Option.map_eq_some_iff.mp loud
    obtain ⟨fewer, alsoEnded, sublist⟩ := shrinks creationModel [closedCreation] found ended
    refine ⟨extended, compiled, ⟨found, fewer, ended, alsoEnded, sublist, isFound⟩, ?_⟩
    cases compiled
    decide +kernel
  · obtain ⟨extended, compiled, grows, -⟩ :=
      (extend_diagnostics_sublist {} { disposalContracts := ["D", "P"] } _ _ rfl rfl).2 (by decide)
    have loud : (diagnoseWith? creationModel extended [closedCreation]).map
        (List.map Diagnostic.typeName) = some ["D"] := by
      cases compiled
      decide +kernel
    obtain ⟨more, ended, isMore⟩ := Option.map_eq_some_iff.mp loud
    obtain ⟨found, alsoEnded, sublist⟩ := (grows creationModel [closedCreation]).2 more ended
    refine ⟨extended, compiled, ⟨found, more, alsoEnded, ended, sublist, isMore⟩, by decide +kernel,
      ?_⟩
    cases compiled
    decide +kernel

end ReleaseAudit.Verdict
