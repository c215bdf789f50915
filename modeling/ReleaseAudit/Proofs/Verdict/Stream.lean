import Mathlib.Data.List.Forall2
import ReleaseAudit.Proofs.Source.Preorder
import ReleaseAudit.Proofs.Verdict.Endless

/-!
# The stream of diagnostics

The diagnostics of a document go one by one with the creations in it that nobody
releases, in the order of the walk. Where the ranges of the tree are in order,
so are the diagnostics.
-/

namespace ReleaseAudit.Verdict

set_option autoImplicit false

open Inference (Model)
open Rules (Ruleset)
open Source (Document Node Outline)
open Source.Sample (classWith letter makerWith readStatement token unit)
open ReleaseAudit.Types (TypeSymbol)

def Decision.isLabelled : Decision → Bool
  | released => true
  | unreleased holder name => name.isNone == (holder == .anonymous)

theorem Decision.is_labelled_of_release (released : Bool) :
    (Decision.ofRelease released).isLabelled = true := by
  cases released <;> rfl

theorem Decision.is_labelled_of_named {holder : Holder} (held : holder ≠ .anonymous)
    (name : String) (released : Bool) :
    (Decision.ofNamed holder name released).isLabelled = true := by
  cases released with
  | true => rfl
  | false => simp [ofNamed, isLabelled, held]

namespace Audit

variable (audit : Audit)

theorem is_labelled_decide {placement : Placement} {site : Node} {resource : TypeSymbol}
    {decision : Decision} (decided : audit.decide? placement site resource = some decision) :
    decision.isLabelled = true := by
  have member : ∀ (name : Node) (holder : Holder), holder ≠ .anonymous →
      (audit.decideMember site name resource holder).isLabelled = true := by
    intro name holder held
    exact Decision.is_labelled_of_named held name.text _
  cases placement with
  | awaitedResult _ | releasedImmediately | returnInBlock | returnArrowBody | returnInLambda
  | returnLater | usingHeader =>
      cases decided
      rfl
  | propertyReturn owner | propertyExpressionBody owner | autoProperty owner =>
      unfold decide? at decided
      dsimp only at decided
      split at decided
      · cases decided
        exact member _ .property (by decide)
      · cases decided
        rfl
  | methodChainLink first =>
      obtain ⟨released, -, rfl⟩ := Option.map_eq_some_iff.mp decided
      exact Decision.is_labelled_of_release released
  | argumentOfInvocation _ | argumentOfConstruction _ | collectionInitializerElement _
  | arrayInitializerElement _ | memberAssignment | anonymous =>
      cases decided
      exact Decision.is_labelled_of_release _
  | localDeclaration name | localAssignment name =>
      cases decided
      exact Decision.is_labelled_of_named (by decide) name.text _
  | fieldDeclaration name | fieldAssignment name =>
      cases decided
      exact member name .field (by decide)
  | propertyAssignment name =>
      cases decided
      exact member name .property (by decide)

/-- A creation that nobody releases, of a type that has to be released. -/
structure Unreleased (site : Node) (type : TypeSymbol) : Prop where
  creates : site.kind.isCreation = true
  notIgnored : audit.isIgnoredFactory site = false
  notTransferred : audit.tracksOwnership site = false
  typed : audit.model.typeOf site.createdValue = some type
  contract : ∃ contract ∈ audit.rules.disposalContracts, type.implements contract = true
  counted : ∀ ignored ∈ audit.rules.ignoredTypes, type.implements ignored = false
  kept : ∃ holder name, audit.decide? (audit.placeValue site.createdValue.valueRoot) site type =
    some (.unreleased holder name)

/-- The diagnostic is about the site, whose value has the given type. -/
structure Describes (document : Document) (site : Node) (type : TypeSymbol)
    (diagnostic : Diagnostic) : Prop where
  location : diagnostic.location = Location.ofNode document site
  origin : diagnostic.origin = .objectCreation ↔ site.kind.isConstruction = true
  typeName : diagnostic.typeName = type.simpleName
  unnamed : diagnostic.variableName = none ↔ diagnostic.holder = .anonymous

theorem covered_of_is_construction {site : Node} (construction : site.kind.isConstruction = true)
    (rules : List Rules.TypeRule) : audit.invocationCovered site rules = false := by
  have other : (site.kind == .invocationExpression) = false := by
    revert construction
    cases site.kind <;> simp [Source.Kind.isConstruction]
  simp [invocationCovered, other]

theorem origin_of_eq_some_iff {site : Node} {origin : Origin} :
    audit.originOf? site = some origin ↔
      site.kind.isCreation = true ∧ audit.isIgnoredFactory site = false ∧
        audit.tracksOwnership site = false ∧
        origin = if site.kind.isConstruction then .objectCreation else .invocation := by
  unfold originOf?
  by_cases construction : site.kind.isConstruction = true
  · have creates : site.kind.isCreation = true := by
      revert construction
      cases site.kind <;> simp [Source.Kind.isConstruction, Source.Kind.isCreation]
    have ignored := audit.covered_of_is_construction construction audit.rules.ignoredFactories
    have transferred := audit.covered_of_is_construction construction audit.rules.ownershipTransfer
    simp [construction, creates, isIgnoredFactory, tracksOwnership, ignored, transferred, eq_comm]
  · have creates : site.kind.isCreation = (site.kind == .invocationExpression) := by
      revert construction
      cases site.kind <;> simp [Source.Kind.isConstruction, Source.Kind.isCreation]
    rw [creates]
    by_cases call : site.kind = .invocationExpression
    · rw [call]
      cases audit.isIgnoredFactory site <;> cases audit.tracksOwnership site <;>
        simp [Source.Kind.isConstruction, eq_comm]
    · simp [call, construction]

theorem needs_release_iff (rules : Ruleset) (type : TypeSymbol) :
    rules.needsRelease type = true ↔
      (∃ contract ∈ rules.disposalContracts, type.implements contract = true) ∧
        ∀ ignored ∈ rules.ignoredTypes, type.implements ignored = false := by
  simp [Ruleset.needsRelease, Ruleset.isTracked, Ruleset.isIgnored]

theorem describes_report {document : Document} {site : Node} {origin : Origin} {type : TypeSymbol}
    {diagnostic : Diagnostic} {decision : Decision} (labelled : decision.isLabelled = true)
    (isOrigin : origin = if site.kind.isConstruction then .objectCreation else .invocation)
    (reported : audit.report document site origin type decision = some diagnostic) :
    Describes document site type diagnostic := by
  cases decision with
  | released => cases reported
  | unreleased holder name =>
      cases reported
      refine ⟨rfl, ?_, rfl, ?_⟩
      · rw [isOrigin]
        cases site.kind.isConstruction <;> simp
      · have link : name.isNone = (holder == .anonymous) := eq_of_beq labelled
        rw [← Option.isNone_iff_eq_none, link]
        exact beq_iff_eq

theorem diagnose_describes {document : Document} {site : Node} {diagnostic : Diagnostic}
    (reported : audit.diagnose? document site = some (some diagnostic)) :
    ∃ type, audit.Unreleased site type ∧ Describes document site type diagnostic := by
  obtain ⟨origin, placement, type, decision, created, decided, reported⟩ :=
    diagnose_eq_some_iff.mp reported
  obtain ⟨isOrigin, typed, needed, rfl⟩ := audit.resource_of_eq_some_iff.mp created
  obtain ⟨creates, notIgnored, notTransferred, isOrigin⟩ :=
    audit.origin_of_eq_some_iff.mp isOrigin
  obtain ⟨contract, counted⟩ := (needs_release_iff audit.rules type).mp needed
  refine ⟨type, ⟨creates, notIgnored, notTransferred, typed, contract, counted, ?_⟩, ?_⟩
  · cases decision with
    | released => cases reported
    | unreleased holder name => exact ⟨holder, name, decided⟩
  · exact audit.describes_report (audit.is_labelled_decide decided) isOrigin reported

theorem diagnose_of_unreleased (document : Document) {site : Node} {type : TypeSymbol}
    (unreleased : audit.Unreleased site type) :
    ∃ diagnostic, audit.diagnose? document site = some (some diagnostic) := by
  have isOrigin := audit.origin_of_eq_some_iff.mpr
    ⟨unreleased.creates, unreleased.notIgnored, unreleased.notTransferred, rfl⟩
  have needed := (needs_release_iff audit.rules type).mpr ⟨unreleased.contract, unreleased.counted⟩
  have created := audit.resource_of_eq_some_iff.mpr ⟨isOrigin, unreleased.typed, needed, rfl⟩
  obtain ⟨holder, name, decided⟩ := unreleased.kept
  exact reports_iff.mpr ⟨_, _, type, holder, name, created, decided⟩

end Audit

def reportedSites (audit : Audit) (document : Document) : List Node :=
  (creationSites document).filter fun site => (audit.diagnose? document site).join.isSome

/-- Answers that hold something go with the entries that they answer. -/
theorem forall₂_filter_map {Item Other : Type} {answer : Item → Option (Option Other)}
    {items : List Item} {others : List (Option Other)}
    (answered : List.Forall₂ (fun item other => answer item = some other) items others) :
    List.Forall₂ (fun item other => answer item = some (some other))
      (items.filter fun item => (answer item).join.isSome) (others.filterMap id) := by
  induction answered with
  | nil => exact .nil
  | @cons item other rest later found _ ih =>
      cases other with
      | none => simpa [found] using ih
      | some other => simpa [found] using ih

theorem mem_reported_sites_iff {audit : Audit} {document : Document} {site : Node} :
    site ∈ reportedSites audit document ↔
      site ∈ document.root.descendants ∧ ∃ type, audit.Unreleased site type := by
  unfold reportedSites creationSites
  rw [List.mem_filter, List.mem_filter, and_assoc]
  refine and_congr_right fun _ => ⟨?_, ?_⟩
  · rintro ⟨-, found⟩
    obtain ⟨diagnostic, reported⟩ := Option.isSome_iff_exists.mp found
    obtain ⟨type, unreleased, -⟩ := audit.diagnose_describes (Option.join_eq_some_iff.mp reported)
    exact ⟨type, unreleased⟩
  · rintro ⟨type, unreleased⟩
    obtain ⟨diagnostic, reported⟩ := audit.diagnose_of_unreleased document unreleased
    exact ⟨unreleased.creates, by rw [reported]; rfl⟩

theorem sublist_reported_sites (audit : Audit) (document : Document) :
    (reportedSites audit document).Sublist document.root.descendants :=
  List.filter_sublist.trans List.filter_sublist

theorem top_of_mem_reported_sites {audit : Audit} {document : Document} {site : Node}
    (member : site ∈ reportedSites audit document) : site.top = document.tree :=
  Node.top_of_mem_descendants (mem_reported_sites_iff.mp member).1

theorem pairwise_reported_sites (audit : Audit) (document : Document) :
    (reportedSites audit document).Pairwise fun earlier later => earlier.place < later.place :=
  document.root.pairwise_descendants.sublist (sublist_reported_sites audit document)

theorem nodup_place_reported_sites (audit : Audit) (document : Document) :
    ((reportedSites audit document).map Node.place).Nodup := by
  apply List.pairwise_map.mpr
  refine (pairwise_reported_sites audit document).imp ?_
  intro earlier later less same
  rw [same] at less
  exact List.lt_irrefl _ less

/-- Earlier and later in byte order; of two that begin together, the earlier one encloses the
later or covers no text. -/
structure Precedes (earlier later : Node) : Prop where
  starts : earlier.start ≤ later.start
  encloses : earlier.start = later.start →
    earlier ∈ later.ancestors ∧ later.stop ≤ earlier.stop ∨ earlier.stop = earlier.start
  notInside : later ∉ earlier.ancestors

theorem precedes_of_lt {earlier later : Node} (sameTop : earlier.top = later.top)
    (ordered : earlier.top.isOrdered = true) (less : earlier.place < later.place) :
    Precedes earlier later := by
  have proper := Node.start_le_stop ordered
  have notInside := Node.not_mem_ancestors_of_lt less
  rcases Node.ranges_of_lt sameTop ordered less with ⟨around, starts, stops⟩ | after
  · exact ⟨starts, fun _ => Or.inl ⟨around, stops⟩, notInside⟩
  · refine ⟨Nat.le_trans proper after, fun together => Or.inr ?_, notInside⟩
    omega

theorem pairwise_precedes (audit : Audit) {document : Document}
    (ordered : document.tree.isOrdered = true) :
    (reportedSites audit document).Pairwise Precedes := by
  refine List.Pairwise.imp_of_mem ?_ (pairwise_reported_sites audit document)
  intro earlier later earlierIn laterIn less
  have earlierTop := top_of_mem_reported_sites earlierIn
  have laterTop := top_of_mem_reported_sites laterIn
  refine precedes_of_lt (earlierTop.trans laterTop.symm) ?_ less
  rw [earlierTop]
  exact ordered

theorem pairwise_of_forall₂ {Item Other : Type} {about : Item → Other → Prop}
    {before : Item → Item → Prop} {after : Other → Other → Prop}
    (carries : ∀ {first second : Item} {one two : Other}, about first one → about second two →
      before first second → after one two)
    {items : List Item} {others : List Other} (match₂ : List.Forall₂ about items others)
    (ordered : items.Pairwise before) : others.Pairwise after := by
  induction match₂ with
  | nil => exact .nil
  | @cons item other items others isAbout rest ih =>
      obtain ⟨first, ordered⟩ := List.pairwise_cons.mp ordered
      refine List.pairwise_cons.mpr ⟨?_, ih ordered⟩
      intro later inOthers
      obtain ⟨index, inside, rfl⟩ := List.getElem_of_mem inOthers
      have insideItems : index < items.length := by
        rw [rest.length_eq]
        exact inside
      exact carries isAbout (rest.get insideItems inside)
        (first _ (List.getElem_mem insideItems))

theorem forall₂_reported_sites {audit : Audit} {document : Document} {found : List Diagnostic}
    (ended : diagnoseDocument? audit.model audit.rules document = some found) :
    List.Forall₂
      (fun site diagnostic => ∃ type, audit.Unreleased site type ∧
        Audit.Describes document site type diagnostic)
      (reportedSites audit document) found := by
  obtain ⟨answers, answered, rfl⟩ := diagnose_document_eq_some_iff.mp ended
  exact (forall₂_filter_map answered).imp fun _ _ reported => audit.diagnose_describes reported

/-- An audit does not end exactly if the search for the owner of one creation does not. Otherwise
the diagnostics of documents audited together are those of each document in turn. Those of one
document go one by one with its unreleased creations in pre-order, and on an ordered tree they are
in byte order, enclosing expressions first. -/
theorem diagnose_all_stream (rules : Ruleset) :
    (∀ documents, diagnoseAll? rules documents =
      diagnoseWith? (Model.ofDocuments rules.catalog documents) rules documents) ∧
    (∀ model documents, diagnoseWith? model rules documents = none ↔
      ∃ document ∈ documents, ∃ site ∈ creationSites document,
        Audit.Endless ⟨model, rules⟩ site) ∧
    (∀ model documents found, diagnoseWith? model rules documents = some found ↔
      ∃ parts, List.Forall₂
        (fun document part => diagnoseDocument? model rules document = some part)
        documents parts ∧ parts.flatten = found) ∧
    ∀ (model : Model) (document : Document) (found : List Diagnostic),
      diagnoseDocument? model rules document = some found → ∃ sites : List Node,
        (∀ site, site ∈ sites ↔
          site ∈ document.root.descendants ∧ ∃ type, Audit.Unreleased ⟨model, rules⟩ site type) ∧
        (sites.Pairwise fun earlier later => earlier.place < later.place) ∧
        (sites.map Node.place).Nodup ∧
        List.Forall₂
          (fun site diagnostic => ∃ type, Audit.Unreleased ⟨model, rules⟩ site type ∧
            Audit.Describes document site type diagnostic)
          sites found ∧
        (document.tree.isOrdered = true →
          sites.Pairwise Precedes ∧
          found.Pairwise fun earlier later =>
            earlier.location.startByte ≤ later.location.startByte ∧
              (earlier.location.startByte = later.location.startByte →
                later.location.endByte ≤ earlier.location.endByte ∨
                  earlier.location.endByte = earlier.location.startByte)) := by
  refine ⟨fun _ => rfl, fun _ _ => diagnose_with_eq_none_iff,
    fun _ _ _ => diagnose_with_eq_some_iff, ?_⟩
  intro model document found ended
  let audit : Audit := ⟨model, rules⟩
  have matched := @forall₂_reported_sites audit document found ended
  refine ⟨reportedSites audit document, fun site => mem_reported_sites_iff,
    pairwise_reported_sites audit document, nodup_place_reported_sites audit document, matched, ?_⟩
  intro ordered
  have precedes := pairwise_precedes audit ordered
  refine ⟨precedes, pairwise_of_forall₂ ?_ matched precedes⟩
  rintro first second one two ⟨_, -, isFirst⟩ ⟨_, -, isSecond⟩ before
  rw [isFirst.location, isSecond.location]
  exact ⟨before.starts, fun together =>
    (before.encloses together).imp (fun inside => inside.2) (fun empty => empty)⟩

/-- `class P { P M() { new P().M(); } }`: the call and the creation begin together. -/
def chainedText : String := "class P \x7b P M() \x7b new P().M(); \x7d \x7d"

def chainedCall : Outline :=
  .node .invocationExpression true none 18 29
    [.node .memberAccessExpression true (some .function) 18 27
      [.node .objectCreationExpression true (some .expression) 18 25
        [token "new" 18, letter (some .type) 22,
          .node .argumentList true (some .arguments) 23 25 [token "(" 23, token ")" 24]],
        token "." 25, letter (some .name) 26],
      .node .argumentList true (some .arguments) 27 29 [token "(" 27, token ")" 28]]

def chainedDocument : Document :=
  .ofOutline "chained.cs" chainedText
    (unit 34 [classWith 0 34 [makerWith 10 32
      [.node (.other "expression_statement") true none 18 30 [chainedCall, token ";" 29]]]])

/-- `class P { P M() { M()?.L; } }` -/
def readingDocument : Document :=
  .ofOutline "reading.cs" "class P \x7b P M() \x7b M()?.L; \x7d \x7d"
    (unit 29 [classWith 0 29 [makerWith 10 27 [readStatement 18]]])

theorem diagnose_all_stream_chained :
    chainedDocument.tree.isOrdered = true ∧
    (∃ (found : List Diagnostic) (sites : List Node),
      diagnoseDocument? uniformModel partsRules chainedDocument = some found ∧
      found.map (fun diagnostic => (diagnostic.origin, diagnostic.location.startByte,
        diagnostic.location.endByte)) = [(.invocation, 18, 29), (.objectCreation, 18, 25)] ∧
      List.Forall₂
        (fun site diagnostic => diagnostic.location = Location.ofNode chainedDocument site)
        sites found ∧
      sites.Pairwise Precedes) ∧
    diagnoseWith? uniformModel partsRules [chainedDocument, readingDocument] = none ∧
    ∃ site ∈ creationSites readingDocument, Audit.Endless ⟨uniformModel, partsRules⟩ site := by
  have ordered : chainedDocument.tree.isOrdered = true := by decide +kernel
  obtain ⟨-, endless, -, stream⟩ := diagnose_all_stream partsRules
  refine ⟨ordered, ?_, by decide +kernel, ?_⟩
  · have reported : (diagnoseDocument? uniformModel partsRules chainedDocument).map
        (List.map fun diagnostic => (diagnostic.origin, diagnostic.location.startByte,
          diagnostic.location.endByte)) =
            some [(.invocation, 18, 29), (.objectCreation, 18, 25)] := by
      decide +kernel
    obtain ⟨found, ended, isFound⟩ := Option.map_eq_some_iff.mp reported
    obtain ⟨sites, -, -, -, matched, inOrder⟩ := stream uniformModel chainedDocument found ended
    refine ⟨found, sites, ended, isFound, matched.imp ?_, (inOrder ordered).1⟩
    rintro site diagnostic ⟨_, -, described⟩
    exact described.location
  · have hangs : diagnoseWith? uniformModel partsRules [readingDocument] = none := by
      decide +kernel
    obtain ⟨document, listed, site, isSite, never⟩ := (endless _ [readingDocument]).mp hangs
    cases List.mem_singleton.mp listed
    exact ⟨site, isSite, never⟩

end ReleaseAudit.Verdict
