import ReleaseAudit.Proofs.Declarations.BodyEdit
import ReleaseAudit.Proofs.Verdict.FileOrder

/-!
# Edits of statement bodies stay in their document

Other documents see a document through its declarations, and statement bodies
are no part of these. So an edit of statement bodies changes no diagnostic
outside of the edited document.
-/

namespace ReleaseAudit.Verdict

set_option autoImplicit false

open Declarations (Catalog Index add_document_eq_of_is_edit)
open Inference (Model indexOf)
open Rules (Ruleset)
open Source (Document Outline)
open Source.Sample (classWith creationStatement methodWith unit)

theorem index_of_eq_of_is_edit (catalog : Catalog) (before after : List Document)
    {original changed : Document} (edit : original.tree.isEdit changed.tree = true) :
    indexOf catalog (before ++ original :: after) =
      indexOf catalog (before ++ changed :: after) := by
  unfold indexOf
  rw [List.foldl_append, List.foldl_append, List.foldl_cons, List.foldl_cons,
    add_document_eq_of_is_edit _ edit]

theorem of_documents_eq_of_is_edit (catalog : Catalog) (before after : List Document)
    {original changed : Document} (edit : original.tree.isEdit changed.tree = true) :
    Model.ofDocuments catalog (before ++ original :: after) =
      Model.ofDocuments catalog (before ++ changed :: after) :=
  congrArg Model.ofIndex (index_of_eq_of_is_edit catalog before after edit)

theorem reported_for_of_is_edit {rules : Ruleset} {before after : List Document}
    {original changed : Document} {found others : List Diagnostic}
    (edit : original.tree.isEdit changed.tree = true)
    (ended : diagnoseAll? rules (before ++ original :: after) = some found)
    (alsoEnded : diagnoseAll? rules (before ++ changed :: after) = some others)
    {path : String} (notOriginal : Files.Path.same original.path path = false)
    (notChanged : Files.Path.same changed.path path = false) :
    reportedFor? rules (before ++ original :: after) path =
      reportedFor? rules (before ++ changed :: after) path := by
  have reported : ∀ {documents : List Document} {diagnostics : List Diagnostic},
      diagnoseAll? rules documents = some diagnostics →
      reportedFor? rules documents path = some (documents.flatMap fun document =>
        if Files.Path.same document.path path then
          (diagnoseDocument? (Model.ofDocuments rules.catalog documents) rules document).getD []
        else []) := by
    intro documents diagnostics isEnd
    exact reported_for_eq_some_iff.mpr ⟨(diagnose_with_eq_shares.mp isEnd).1, rfl⟩
  rw [reported ended, reported alsoEnded,
    of_documents_eq_of_is_edit rules.catalog before after edit, List.flatMap_append,
    List.flatMap_append, List.flatMap_cons, List.flatMap_cons, notOriginal, notChanged]
  rfl

/-- Where one document is edited in statement bodies of members only, the table of declarations
stays as it is, and so does the audit of every document. The audit of all documents ends after the
edit if it ended before, unless that of the edited document does not. The diagnostics of every
other document stay, and those of the edited one are all that may differ in the whole list. -/
theorem diagnose_all_body_edit_local (rules : Ruleset) (before after : List Document)
    (original changed : Document) (samePath : changed.path = original.path)
    (edit : original.tree.isEdit changed.tree = true) :
    indexOf rules.catalog (before ++ original :: after) =
      indexOf rules.catalog (before ++ changed :: after) ∧
    (∀ document,
      diagnoseDocument? (Model.ofDocuments rules.catalog (before ++ original :: after)) rules
          document =
        diagnoseDocument? (Model.ofDocuments rules.catalog (before ++ changed :: after)) rules
          document) ∧
    ∀ found, diagnoseAll? rules (before ++ original :: after) = some found →
      (diagnoseAll? rules (before ++ changed :: after) = none ↔
        ∃ site ∈ creationSites changed,
          Audit.Endless
            ⟨Model.ofDocuments rules.catalog (before ++ changed :: after), rules⟩ site) ∧
      ∀ others, diagnoseAll? rules (before ++ changed :: after) = some others →
        (∃ first own new last,
          diagnoseDocument? (Model.ofDocuments rules.catalog (before ++ original :: after)) rules
            original = some own ∧
          diagnoseDocument? (Model.ofDocuments rules.catalog (before ++ changed :: after)) rules
            changed = some new ∧
          found = first ++ (own ++ last) ∧ others = first ++ (new ++ last)) ∧
        ∀ path, Files.Path.same original.path path = false →
          reportedFor? rules (before ++ original :: after) path =
            reportedFor? rules (before ++ changed :: after) path := by
  have models := of_documents_eq_of_is_edit rules.catalog before after edit
  refine ⟨index_of_eq_of_is_edit rules.catalog before after edit, fun document => by rw [models],
    ?_⟩
  intro found ended
  have parts := ended
  rw [diagnoseAll?, models] at parts
  obtain ⟨first, own, last, isFirst, isOwn, isLast, rfl⟩ := diagnose_with_split.mp parts
  constructor
  · rw [← diagnose_document_eq_none_iff]
    constructor
    · intro hangs
      cases isNew : diagnoseDocument? (Model.ofDocuments rules.catalog (before ++ changed :: after))
          rules changed with
      | none => rfl
      | some new =>
          have ends := diagnose_with_split.mpr ⟨first, new, last, isFirst, isNew, isLast, rfl⟩
          cases hangs.symm.trans ends
    · intro hangs
      rw [diagnoseAll?, diagnose_with_eq_none_iff]
      exact ⟨changed, by simp, diagnose_document_eq_none_iff.mp hangs⟩
  · intro others alsoEnded
    refine ⟨?_, ?_⟩
    · obtain ⟨first', new, last', isFirst', isNew, isLast', rfl⟩ :=
        diagnose_with_split.mp alsoEnded
      cases isFirst.symm.trans isFirst'
      cases isLast.symm.trans isLast'
      rw [models]
      exact ⟨first, own, new, last, isOwn, isNew, rfl, rfl⟩
    · intro path elsewhere
      refine reported_for_of_is_edit edit ended alsoEnded elsewhere ?_
      rw [samePath]
      exact elsewhere

/-- The method `M` of `P` loses its statement, and the method after it moves. -/
def filledText : String :=
  "class P \x7b void M() \x7b new P(); \x7d void K() \x7b \x7d \x7d"

def emptiedText : String := "class P \x7b void M() \x7b \x7d void K() \x7b \x7d \x7d"

def filledDocument : Document :=
  .ofOutline "edited.cs" filledText
    (unit 46 [classWith 0 46 [methodWith 10 31 [creationStatement 21], methodWith 32 44 []]])

def emptiedDocument : Document :=
  .ofOutline "edited.cs" emptiedText
    (unit 37 [classWith 0 37 [methodWith 10 22 [], methodWith 23 35 []]])

def usingText : String := "class Q \x7b void N() \x7b new P(); \x7d \x7d"

def usingDocument : Document :=
  .ofOutline "user.cs" usingText
    (unit 33 [classWith 0 33 [methodWith 10 31 [creationStatement 21]]])

theorem diagnose_all_body_edit_local_emptied :
    emptiedDocument.path = filledDocument.path ∧
    filledDocument.tree.isEdit emptiedDocument.tree = true ∧
    Files.Path.same filledDocument.path "user.cs" = false ∧
    (reportedFor? partsRules [usingDocument, filledDocument] "user.cs").map
      (List.map Diagnostic.typeName) = some ["P"] ∧
    (reportedFor? partsRules [usingDocument, filledDocument] "edited.cs").map List.length =
      some 1 ∧
    (reportedFor? partsRules [usingDocument, emptiedDocument] "edited.cs").map List.length =
      some 0 ∧
    reportedFor? partsRules [usingDocument, filledDocument] "user.cs" =
      reportedFor? partsRules [usingDocument, emptiedDocument] "user.cs" := by
  have edit : filledDocument.tree.isEdit emptiedDocument.tree = true := by decide +kernel
  have elsewhere : Files.Path.same filledDocument.path "user.cs" = false := by decide +kernel
  have filledEnds : (diagnoseAll? partsRules [usingDocument, filledDocument]).isSome = true := by
    decide +kernel
  have emptiedEnds : (diagnoseAll? partsRules [usingDocument, emptiedDocument]).isSome = true := by
    decide +kernel
  obtain ⟨found, ended⟩ := Option.isSome_iff_exists.mp filledEnds
  obtain ⟨others, alsoEnded⟩ := Option.isSome_iff_exists.mp emptiedEnds
  obtain ⟨-, -, runs⟩ :=
    diagnose_all_body_edit_local partsRules [usingDocument] [] filledDocument emptiedDocument
      rfl edit
  obtain ⟨-, reported⟩ := (runs found ended).2 others alsoEnded
  exact ⟨rfl, edit, elsewhere, by decide +kernel, by decide +kernel, by decide +kernel,
    reported "user.cs" elsewhere⟩

end ReleaseAudit.Verdict
