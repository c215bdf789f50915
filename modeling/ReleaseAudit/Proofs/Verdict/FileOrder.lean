import Mathlib.Data.List.Pairwise
import ReleaseAudit.Proofs.Declarations.FileOrder
import ReleaseAudit.Proofs.Inference.Agreement
import ReleaseAudit.Proofs.Source.Sample
import ReleaseAudit.Proofs.Verdict.Endless
import ReleaseAudit.Server.Workspace

/-!
# Diagnostics in every order of the documents

Documents see each other through the table of declarations only. Where the
table is the same in every order, so is the list of diagnostics of each document,
and editors are sent the same publications.
-/

namespace ReleaseAudit.Verdict

set_option autoImplicit false

open Declarations (Catalog Compatible Index)
open Declarations.Index (Agree)
open Inference (Model indexOf)
open Rules (Ruleset)
open Source (Document Outline Parser)
open Source.Sample (aliasDirective classWith creationStatement derivedPart methodWith partWith unit)

/-- Diagnostics for the document at a path, if the audit of all documents ends. -/
def reportedFor? (rules : Ruleset) (documents : List Document) (path : String) :
    Option (List Diagnostic) :=
  (diagnoseAll? rules documents).map fun diagnostics =>
    diagnostics.filter fun diagnostic => Files.Path.same diagnostic.location.path path

theorem sound_to_index (catalog : Catalog) : catalog.toIndex.Sound := by
  have kept : ∀ (decls : List Declarations.TypeDecl) (index : Index), index.Sound →
      (decls.foldl Index.insert index).Sound := by
    intro decls
    induction decls with
    | nil => exact fun _ sound => sound
    | cons decl rest ih => exact fun index sound => ih _ (Index.sound_insert sound decl)
  exact kept catalog.types _ (by simp [Index.Sound])

theorem of_documents_eq_of_perm (catalog : Catalog) {documents permuted : List Document}
    (compatible : ∀ first ∈ documents, ∀ second ∈ documents,
      Compatible catalog.toIndex first second)
    (perm : documents.Perm permuted) :
    Model.ofDocuments catalog documents = Model.ofDocuments catalog permuted := by
  have agree := Index.agree_of_perm (sound_to_index catalog) compatible perm
  exact Inference.of_index_congr agree.finalize

theorem path_of_mem_diagnose_document {model : Model} {rules : Ruleset} {document : Document}
    {found : List Diagnostic} (ended : diagnoseDocument? model rules document = some found)
    {diagnostic : Diagnostic} (member : diagnostic ∈ found) :
    diagnostic.location.path = document.path := by
  obtain ⟨site, -, reported⟩ := exists_site_of_mem ended member
  obtain ⟨origin, placement, type, decision, -, -, described⟩ :=
    Audit.diagnose_eq_some_iff.mp reported
  cases decision with
  | released => cases described
  | unreleased holder name =>
      cases described
      rfl

theorem filter_diagnose_document (model : Model) (rules : Ruleset) (path : String)
    (document : Document) :
    (((diagnoseDocument? model rules document).getD []).filter fun diagnostic =>
        Files.Path.same diagnostic.location.path path) =
      if Files.Path.same document.path path then
        (diagnoseDocument? model rules document).getD []
      else [] := by
  cases ended : diagnoseDocument? model rules document with
  | none => simp
  | some found =>
      rw [Option.getD_some]
      split
      · next here =>
          rw [List.filter_eq_self]
          intro diagnostic member
          rwa [path_of_mem_diagnose_document ended member]
      · next elsewhere =>
          rw [List.filter_eq_nil_iff]
          intro diagnostic member
          rwa [path_of_mem_diagnose_document ended member]

theorem same_of_same_path {first second : Document} {path : String}
    (firstHere : Files.Path.same first.path path = true)
    (secondHere : Files.Path.same second.path path = true) :
    Files.Path.same first.path second.path = true := by
  unfold Files.Path.same at *
  rw [eq_of_beq firstHere, eq_of_beq secondHere]
  exact beq_self_eq_true _

theorem eq_of_same_path {documents : List Document}
    (distinct : documents.Pairwise fun first second =>
      Files.Path.same first.path second.path = false)
    {first second : Document} (inFirst : first ∈ documents) (inSecond : second ∈ documents)
    (same : Files.Path.same first.path second.path = true) : first = second := by
  have symmetric : Std.Symm fun first second : Document =>
      Files.Path.same first.path second.path = false := by
    constructor
    intro first second apart
    unfold Files.Path.same at *
    rw [beq_eq_false_iff_ne] at *
    exact apart.symm
  by_contra other
  have apart := distinct.forall inFirst inSecond other
  rw [apart] at same
  cases same

theorem reported_for_eq_some_iff {rules : Ruleset} {documents : List Document} {path : String}
    {found : List Diagnostic} :
    reportedFor? rules documents path = some found ↔
      (∀ document ∈ documents,
        (diagnoseDocument? (Model.ofDocuments rules.catalog documents) rules document).isSome =
          true) ∧
      (documents.flatMap fun document =>
        if Files.Path.same document.path path then
          (diagnoseDocument? (Model.ofDocuments rules.catalog documents) rules document).getD []
        else []) = found := by
  unfold reportedFor? diagnoseAll?
  simp only [Option.map_eq_some_iff, diagnose_with_eq_shares, ← filter_diagnose_document,
    ← List.filter_flatMap]
  constructor
  · rintro ⟨_, ⟨ended, rfl⟩, rfl⟩
    exact ⟨ended, rfl⟩
  · rintro ⟨ended, rfl⟩
    exact ⟨_, ⟨ended, rfl⟩, rfl⟩

theorem reported_for_perm {rules : Ruleset} {documents permuted : List Document}
    (distinct : documents.Pairwise fun first second =>
      Files.Path.same first.path second.path = false)
    (compatible : ∀ first ∈ documents, ∀ second ∈ documents,
      Compatible rules.catalog.toIndex first second)
    (perm : documents.Perm permuted) (path : String) :
    reportedFor? rules documents path = reportedFor? rules permuted path := by
  apply Option.ext
  intro found
  rw [reported_for_eq_some_iff, reported_for_eq_some_iff,
    of_documents_eq_of_perm rules.catalog compatible perm]
  refine and_congr (by simp only [perm.mem_iff]) (Eq.congr_left ?_)
  refine Declarations.flat_map_eq_of_perm (fun first inFirst second inSecond => ?_) perm
  -- At most one of two documents has the path.
  by_cases firstHere : Files.Path.same first.path path = true
  · by_cases secondHere : Files.Path.same second.path path = true
    · rw [eq_of_same_path distinct inFirst inSecond (same_of_same_path firstHere secondHere)]
    · rw [if_neg secondHere, List.append_nil, List.nil_append]
  · rw [if_neg firstHere, List.append_nil, List.nil_append]

theorem address_of_mem {documents : List Document}
    (distinct : documents.Pairwise fun first second =>
      Files.Path.same first.path second.path = false)
    {document : Document} (member : document ∈ documents) :
    Server.addressOf? documents document.path = some document.path := by
  unfold Server.addressOf?
  have itself : Files.Path.same document.path document.path = true := beq_self_eq_true _
  cases found : documents.reverse.find? fun other =>
      Files.Path.same other.path document.path with
  | none =>
      have differs := List.find?_eq_none.mp found document (List.mem_reverse.mpr member)
      exact absurd itself differs
  | some other =>
      have listed := List.mem_reverse.mp (List.mem_of_find?_eq_some found)
      have same : Files.Path.same other.path document.path = true := by
        simpa using List.find?_some found
      rw [eq_of_same_path distinct listed member same]
      rfl

theorem publications_eq {documents : List Document}
    (distinct : documents.Pairwise fun first second =>
      Files.Path.same first.path second.path = false)
    (diagnostics : List Diagnostic) :
    Server.publications documents diagnostics =
      documents.map fun document =>
        ⟨document.path,
          (diagnostics.filter fun diagnostic =>
            Files.Path.same diagnostic.location.path document.path).map
            (Report.EditorDiagnostic.ofDiagnostic document.text)⟩ := by
  unfold Server.publications
  rw [← List.filterMap_eq_map]
  refine List.filterMap_congr fun document member => ?_
  rw [address_of_mem distinct member]
  rfl

theorem pairwise_path_perm {documents permuted : List Document}
    (distinct : documents.Pairwise fun first second =>
      Files.Path.same first.path second.path = false)
    (perm : documents.Perm permuted) :
    permuted.Pairwise fun first second => Files.Path.same first.path second.path = false := by
  refine perm.pairwise distinct fun {first second} apart => ?_
  unfold Files.Path.same at *
  rw [beq_eq_false_iff_ne] at *
  exact apart.symm

theorem publications_perm {rules : Ruleset} {documents permuted : List Document}
    (distinct : documents.Pairwise fun first second =>
      Files.Path.same first.path second.path = false)
    (compatible : ∀ first ∈ documents, ∀ second ∈ documents,
      Compatible rules.catalog.toIndex first second)
    (perm : documents.Perm permuted) :
    Option.Rel List.Perm
      ((diagnoseAll? rules documents).map (Server.publications documents))
      ((diagnoseAll? rules permuted).map (Server.publications permuted)) := by
  have reports := reported_for_perm distinct compatible perm
  unfold reportedFor? at reports
  cases ended : diagnoseAll? rules documents with
  | none =>
      have alike := reports ""
      rw [ended] at alike
      rw [Option.map_eq_none_iff.mp alike.symm]
      exact .none
  | some found =>
      cases otherEnded : diagnoseAll? rules permuted with
      | none =>
          have alike := reports ""
          rw [ended, otherEnded] at alike
          cases alike
      | some other =>
          rw [Option.map_some, Option.map_some, publications_eq distinct,
            publications_eq (pairwise_path_perm distinct perm)]
          have shown : ∀ path : String,
              (found.filter fun diagnostic => Files.Path.same diagnostic.location.path path) =
                other.filter fun diagnostic => Files.Path.same diagnostic.location.path path := by
            intro path
            have alike := reports path
            rw [ended, otherEnded] at alike
            exact Option.some.inj alike
          simp only [shown]
          exact .some (perm.map _)

/-- Compatible documents, and no others, give the same table of declarations in every order. In
every order they have the same diagnostics each, and editors are sent the same publications, or
the audit does not end in any order. -/
theorem reported_for_order_independent (rules : Ruleset) (documents : List Document)
    (distinct : documents.Pairwise fun first second =>
      Files.Path.same first.path second.path = false) :
    ((∀ first ∈ documents, ∀ second ∈ documents,
        Compatible rules.catalog.toIndex first second) ↔
      ∀ permuted, documents.Perm permuted →
        Agree (rules.catalog.toIndex.addDocuments documents)
          (rules.catalog.toIndex.addDocuments permuted)) ∧
    ((∀ first ∈ documents, ∀ second ∈ documents,
        Compatible rules.catalog.toIndex first second) →
      (∀ permuted, documents.Perm permuted →
        ∀ path, reportedFor? rules documents path = reportedFor? rules permuted path) ∧
      ∀ (parser : Parser) (workspace : Server.Workspace) (listing reordered : Server.Listing),
        workspace.compile parser listing = documents →
        Option.Rel List.Perm (workspace.publishAll? parser rules listing)
          (workspace.publishAll? parser rules reordered)) := by
  refine ⟨Index.compatible_iff_agree (sound_to_index rules.catalog) documents, ?_⟩
  intro compatible
  constructor
  · intro permuted perm path
    exact reported_for_perm distinct compatible perm path
  · intro parser workspace listing reordered compiled
    subst compiled
    have perm : (workspace.compile parser listing).Perm (workspace.compile parser reordered) :=
      ((listing.perm _).trans (reordered.perm _).symm).map _
    exact publications_perm distinct compatible perm

def creatingText : String := "partial class P \x7b void M() \x7b new P(); \x7d \x7d"

def derivedText : String := "class D \x7b \x7d partial class P : D \x7b \x7d"

def aliasedText : String :=
  "using D = E; class E \x7b \x7d partial class P : D \x7b \x7d"

def partsParser (text : String) : Outline :=
  if text == creatingText then
    unit 41 [partWith 0 41 [methodWith 18 39 [creationStatement 29]]]
  else if text == derivedText then unit 35 [classWith 0 11 [], derivedPart 12]
  else unit 48 [aliasDirective 0, classWith 13 24 [], derivedPart 25]

def creatingDocument : Document := .parse partsParser "create.cs" creatingText

def derivedDocument : Document := .parse partsParser "derive.cs" derivedText

def aliasedDocument : Document := .parse partsParser "derive.cs" aliasedText

def partsWorkspace : Server.Workspace :=
  (Server.Workspace.empty.insert "create.cs" creatingText).insert "derive.cs" derivedText

def backward : Server.Listing := ⟨List.reverse, fun entries => entries.reverse_perm⟩

theorem reported_for_order_independent_parts :
    ([creatingDocument, derivedDocument].Pairwise fun first second =>
      Files.Path.same first.path second.path = false) ∧
    (∀ first ∈ [creatingDocument, derivedDocument],
      ∀ second ∈ [creatingDocument, derivedDocument],
        Compatible partsRules.catalog.toIndex first second) ∧
    reportedFor? partsRules [creatingDocument, derivedDocument] "create.cs" =
      reportedFor? partsRules [derivedDocument, creatingDocument] "create.cs" ∧
    (reportedFor? partsRules [creatingDocument, derivedDocument] "create.cs").map
      (List.map Diagnostic.typeName) = some ["P"] ∧
    partsWorkspace.compile partsParser ⟨id, List.Perm.refl⟩ =
      [creatingDocument, derivedDocument] ∧
    Option.Rel List.Perm
      (partsWorkspace.publishAll? partsParser partsRules ⟨id, List.Perm.refl⟩)
      (partsWorkspace.publishAll? partsParser partsRules backward) := by
  have distinct : [creatingDocument, derivedDocument].Pairwise fun first second =>
      Files.Path.same first.path second.path = false := by decide +kernel
  have compatible : ∀ first ∈ [creatingDocument, derivedDocument],
      ∀ second ∈ [creatingDocument, derivedDocument],
        Compatible partsRules.catalog.toIndex first second := by decide +kernel
  obtain ⟨reports, publications⟩ :=
    (reported_for_order_independent partsRules _ distinct).2 compatible
  exact ⟨distinct, compatible, reports _ (List.Perm.swap _ _ _) "create.cs", by decide +kernel,
    rfl, publications partsParser partsWorkspace ⟨id, List.Perm.refl⟩ backward rfl⟩

-- Where one part alone has an alias for the base, the base is found only if that part is first.
example :
    ((indexOf partsRules.catalog [aliasedDocument, creatingDocument]).get? "P").map
        Declarations.TypeDecl.baseKeys = some ["E"] ∧
      ((indexOf partsRules.catalog [creatingDocument, aliasedDocument]).get? "P").map
        Declarations.TypeDecl.baseKeys = some [] := by
  decide +kernel

end ReleaseAudit.Verdict
