import ReleaseAudit.Proofs.Lists
import ReleaseAudit.Proofs.Verdict.Chain
import ReleaseAudit.Proofs.Verdict.Created

/-!
# Audits that end

An audit asks for a decision about every creation, and a decision may follow a
chain of calls that has no end. One such creation is enough, in any document,
for the whole audit not to end. Otherwise the diagnostics are those of the
creations, one by one.
-/

namespace ReleaseAudit.Verdict

set_option autoImplicit false

open Inference (Model)
open ReleaseAudit.Lists (exists_left_of_mem map_m_eq_none_iff map_m_eq_some_iff)
open Rules (Ruleset)
open Source (Document Node)
open ReleaseAudit.Types (TypeSymbol)

namespace Audit

variable (audit : Audit)

/-- The search for an owner of the resource that a node creates never ends. -/
def Endless (node : Node) : Prop :=
  ∃ origin first type,
    audit.resourceOf? node = some (origin, .methodChainLink first, type) ∧ audit.NeverEnds first

variable {audit}

theorem decide_eq_none_iff {placement : Placement} {site : Node} {resource : TypeSymbol} :
    audit.decide? placement site resource = none ↔
      ∃ first, placement = .methodChainLink first ∧ audit.NeverEnds first := by
  constructor
  · intro undecided
    cases placement with
    | methodChainLink first =>
        exact ⟨first, rfl, chain_tracks_eq_none_iff.mp (Option.map_eq_none_iff.mp undecided)⟩
    | propertyReturn | propertyExpressionBody | autoProperty =>
        unfold decide? at undecided
        dsimp only at undecided
        split at undecided <;> cases undecided
    | awaitedResult | releasedImmediately | returnInBlock | returnArrowBody | returnInLambda
    | returnLater | usingHeader | argumentOfInvocation | argumentOfConstruction
    | collectionInitializerElement | arrayInitializerElement | localDeclaration | localAssignment
    | fieldDeclaration | fieldAssignment | propertyAssignment | memberAssignment | anonymous =>
        cases undecided
  · rintro ⟨first, rfl, endless⟩
    exact Option.map_eq_none_iff.mpr (chain_tracks_eq_none_iff.mpr endless)

theorem diagnose_eq_none_iff {document : Document} {node : Node} :
    audit.diagnose? document node = none ↔ audit.Endless node := by
  unfold diagnose? Endless
  cases created : audit.resourceOf? node with
  | none => simp
  | some resource =>
      obtain ⟨origin, placement, type⟩ := resource
      simp only [Option.map_eq_none_iff, decide_eq_none_iff, Option.some.injEq, Prod.mk.injEq]
      constructor
      · rintro ⟨first, rfl, endless⟩
        exact ⟨origin, first, type, ⟨rfl, rfl, rfl⟩, endless⟩
      · rintro ⟨_, first, _, ⟨-, rfl, -⟩, endless⟩
        exact ⟨first, rfl, endless⟩

theorem diagnose_eq_some_iff {document : Document} {node : Node} {diagnostic : Diagnostic} :
    audit.diagnose? document node = some (some diagnostic) ↔
      ∃ origin placement type decision,
        audit.resourceOf? node = some (origin, placement, type) ∧
        audit.decide? placement node type = some decision ∧
        audit.report document node origin type decision = some diagnostic := by
  unfold diagnose?
  cases created : audit.resourceOf? node with
  | none => simp
  | some resource =>
      obtain ⟨origin, placement, type⟩ := resource
      simp [Option.map_eq_some_iff]

theorem reports_iff {document : Document} {node : Node} :
    (∃ diagnostic, audit.diagnose? document node = some (some diagnostic)) ↔
      ∃ origin placement type holder name,
        audit.resourceOf? node = some (origin, placement, type) ∧
        audit.decide? placement node type = some (.unreleased holder name) := by
  simp only [diagnose_eq_some_iff]
  constructor
  · rintro ⟨diagnostic, origin, placement, type, decision, created, decided, reported⟩
    cases decision with
    | released => cases reported
    | unreleased holder name => exact ⟨origin, placement, type, holder, name, created, decided⟩
  · rintro ⟨origin, placement, type, holder, name, created, decided⟩
    exact ⟨_, origin, placement, type, _, created, decided, rfl⟩

end Audit

theorem diagnose_document_eq_some_iff {model : Model} {rules : Ruleset} {document : Document}
    {found : List Diagnostic} :
    diagnoseDocument? model rules document = some found ↔
      ∃ answers, List.Forall₂
        (fun site answer => Audit.diagnose? ⟨model, rules⟩ document site = some answer)
        (creationSites document) answers ∧ answers.filterMap id = found := by
  simp only [diagnoseDocument?, Option.map_eq_some_iff, map_m_eq_some_iff]

theorem diagnose_document_eq_none_iff {model : Model} {rules : Ruleset} {document : Document} :
    diagnoseDocument? model rules document = none ↔
      ∃ site ∈ creationSites document, Audit.Endless ⟨model, rules⟩ site := by
  simp only [diagnoseDocument?, Option.map_eq_none_iff, map_m_eq_none_iff,
    Audit.diagnose_eq_none_iff]

theorem diagnose_with_eq_some_iff {model : Model} {rules : Ruleset} {documents : List Document}
    {found : List Diagnostic} :
    diagnoseWith? model rules documents = some found ↔
      ∃ parts, List.Forall₂
        (fun document part => diagnoseDocument? model rules document = some part)
        documents parts ∧ parts.flatten = found := by
  simp only [diagnoseWith?, Option.map_eq_some_iff, map_m_eq_some_iff]

theorem diagnose_with_eq_none_iff {model : Model} {rules : Ruleset} {documents : List Document} :
    diagnoseWith? model rules documents = none ↔
      ∃ document ∈ documents, ∃ site ∈ creationSites document,
        Audit.Endless ⟨model, rules⟩ site := by
  simp only [diagnoseWith?, Option.map_eq_none_iff, map_m_eq_none_iff,
    diagnose_document_eq_none_iff]

theorem diagnose_with_eq_shares {model : Model} {rules : Ruleset} {documents : List Document}
    {found : List Diagnostic} :
    diagnoseWith? model rules documents = some found ↔
      (∀ document ∈ documents, (diagnoseDocument? model rules document).isSome = true) ∧
        (documents.flatMap fun document => (diagnoseDocument? model rules document).getD []) =
          found :=
  Lists.map_m_flatten_eq_some_iff

theorem diagnose_with_split {model : Model} {rules : Ruleset} {before after : List Document}
    {document : Document} {found : List Diagnostic} :
    diagnoseWith? model rules (before ++ document :: after) = some found ↔
      ∃ first own last, diagnoseWith? model rules before = some first ∧
        diagnoseDocument? model rules document = some own ∧
        diagnoseWith? model rules after = some last ∧ first ++ (own ++ last) = found := by
  simp only [diagnose_with_eq_shares, List.forall_mem_append, List.forall_mem_cons,
    List.flatMap_append, List.flatMap_cons]
  constructor
  · rintro ⟨⟨beforeEnds, ends, afterEnds⟩, rfl⟩
    obtain ⟨own, isOwn⟩ := Option.isSome_iff_exists.mp ends
    exact ⟨_, own, _, ⟨beforeEnds, rfl⟩, isOwn, ⟨afterEnds, rfl⟩, by rw [isOwn, Option.getD_some]⟩
  · rintro ⟨_, own, _, ⟨beforeEnds, rfl⟩, isOwn, ⟨afterEnds, rfl⟩, rfl⟩
    rw [isOwn]
    exact ⟨⟨beforeEnds, rfl, afterEnds⟩, rfl⟩

theorem exists_site_of_mem {model : Model} {rules : Ruleset} {document : Document}
    {found : List Diagnostic} (ended : diagnoseDocument? model rules document = some found)
    {diagnostic : Diagnostic} (member : diagnostic ∈ found) :
    ∃ site ∈ creationSites document,
      Audit.diagnose? ⟨model, rules⟩ document site = some (some diagnostic) := by
  obtain ⟨answers, answered, rfl⟩ := diagnose_document_eq_some_iff.mp ended
  obtain ⟨answer, isAnswer, rfl⟩ := List.mem_filterMap.mp member
  obtain ⟨site, isSite, reported⟩ := exists_left_of_mem answered isAnswer
  exact ⟨site, isSite, reported⟩

end ReleaseAudit.Verdict
