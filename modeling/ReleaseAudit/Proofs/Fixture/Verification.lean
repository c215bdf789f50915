import ReleaseAudit.Proofs.Fixture.ByLine
import ReleaseAudit.Proofs.Source.Sample
import ReleaseAudit.Proofs.Text.Position
import ReleaseAudit.Proofs.Verdict.Stream

/-!
# Fixtures are verified line by line

Cases take whole lines: what a case finds wrong with a line is what is wrong
with the line, however many cases it lies in. The last case takes the lines that
no type covers, so that no line is left out.
-/

namespace ReleaseAudit.Fixture

set_option autoImplicit false

open Rules (Ruleset)
open Source (Document Node Outline)
open Source.Sample (classWith creationStatement methodWith unit)
open Verdict (Diagnostic)

theorem mem_insert_line {line other : Nat} {lines : List Nat} :
    other ∈ insertLine line lines ↔ other = line ∨ other ∈ lines := by
  induction lines with
  | nil => simp [insertLine]
  | cons head rest ih =>
      unfold insertLine
      split
      · next same => simp [same]
      · split
        · simp
        · simp only [List.mem_cons, ih]
          exact or_left_comm

theorem pairwise_insert_line {line : Nat} {lines : List Nat} (ascending : lines.Pairwise (· < ·)) :
    (insertLine line lines).Pairwise (· < ·) := by
  induction lines with
  | nil => simp [insertLine]
  | cons head rest ih =>
      obtain ⟨first, others⟩ := List.pairwise_cons.mp ascending
      unfold insertLine
      split
      · exact ascending
      · split
        · next less =>
            apply List.pairwise_cons.mpr
            refine ⟨?_, ascending⟩
            intro later member
            rcases List.mem_cons.mp member with rfl | inRest
            · exact less
            · exact Nat.lt_trans less (first later inRest)
        · apply List.pairwise_cons.mpr
          refine ⟨?_, ih others⟩
          intro later member
          rcases mem_insert_line.mp member with rfl | inRest
          · omega
          · exact first later inRest

theorem mem_foldr_insert_line {line : Nat} {added : List Nat} :
    line ∈ added.foldr insertLine [] ↔ line ∈ added := by
  induction added with
  | nil => simp
  | cons head rest ih => rw [List.foldr_cons, mem_insert_line, ih, List.mem_cons]

theorem pairwise_lines_of (expectations : Expectations) (diagnostics : List Diagnostic) :
    (linesOf expectations diagnostics).Pairwise (· < ·) := by
  unfold linesOf
  refine List.foldrRecOn (motive := List.Pairwise (· < ·)) _ _ List.Pairwise.nil ?_
  intro lines ascending line _
  exact pairwise_insert_line ascending

variable (name : String) (sourceLines : List String) (expectations : Expectations)
  (diagnostics : List Diagnostic)

theorem match_line_eq_nil_of_not_mem {line : Nat}
    (absent : line ∉ linesOf expectations diagnostics) :
    matchLine (expectations.get line) (diagnosticsOn line diagnostics) = [] := by
  rw [linesOf, mem_foldr_insert_line, List.mem_append, not_or] at absent
  have silent : diagnosticsOn line diagnostics = [] := by
    apply List.filter_eq_nil_iff.mpr
    intro diagnostic member same
    exact absent.2 (List.mem_map.mpr ⟨diagnostic, member, eq_of_beq same⟩)
  rw [Expectations.get_eq_nil_of_not_mem absent.1, silent]
  rfl

def CaseResult.on (result : CaseResult) (line : Nat) : List Mismatch :=
  (result.failures.filter fun failure => failure.line == line + 1).map Failure.mismatch

theorem line_of_mem_line_failures {line : Nat} :
    ∀ failure ∈ lineFailures name sourceLines expectations diagnostics line,
      failure.line = line + 1 := by
  intro failure member
  obtain ⟨mismatch, -, rfl⟩ := List.mem_map.mp member
  rfl

/-- Of the failures of ascending lines, those of one line are found again as a whole. -/
theorem filter_flat_map_line_failures {lines : List Nat} (ascending : lines.Pairwise (· < ·))
    (line : Nat) :
    ((lines.flatMap (lineFailures name sourceLines expectations diagnostics)).filter
        fun failure => failure.line == line + 1) =
      if line ∈ lines then lineFailures name sourceLines expectations diagnostics line else [] := by
  induction lines with
  | nil => simp
  | cons head rest ih =>
      obtain ⟨first, others⟩ := List.pairwise_cons.mp ascending
      have ofHead : ∀ failure ∈ lineFailures name sourceLines expectations diagnostics head,
          failure.line = head + 1 :=
        line_of_mem_line_failures name sourceLines expectations diagnostics
      rw [List.flatMap_cons, List.filter_append, ih others]
      by_cases here : line = head
      · subst here
        have later : line ∉ rest := fun member => Nat.lt_irrefl _ (first line member)
        have whole : (lineFailures name sourceLines expectations diagnostics line).filter
            (fun failure => failure.line == line + 1) =
            lineFailures name sourceLines expectations diagnostics line := by
          apply List.filter_eq_self.mpr
          intro failure member
          exact beq_iff_eq.mpr (ofHead failure member)
        rw [whole, if_neg later, if_pos List.mem_cons_self, List.append_nil]
      · have none : (lineFailures name sourceLines expectations diagnostics head).filter
            (fun failure => failure.line == line + 1) = [] := by
          apply List.filter_eq_nil_iff.mpr
          intro failure member same
          have own := ofHead failure member
          have asked : failure.line = line + 1 := eq_of_beq same
          omega
        rw [none, List.nil_append]
        simp [here]

theorem on_verify_case (line : Nat) :
    (verifyCase name sourceLines expectations diagnostics).on line =
      matchLine (expectations.get line) (diagnosticsOn line diagnostics) := by
  unfold CaseResult.on verifyCase
  rw [filter_flat_map_line_failures name sourceLines expectations diagnostics
    (pairwise_lines_of expectations diagnostics) line]
  split
  · simp [lineFailures, Function.comp_def]
  · next absent =>
      rw [match_line_eq_nil_of_not_mem expectations diagnostics absent]
      rfl

theorem passed_verify_case_iff :
    (verifyCase name sourceLines expectations diagnostics).passed = true ↔
      ∀ line, (verifyCase name sourceLines expectations diagnostics).on line = [] := by
  unfold CaseResult.passed
  rw [List.isEmpty_iff]
  constructor
  · intro none line
    rw [CaseResult.on, none]
    rfl
  · intro clean
    apply List.flatMap_eq_nil_iff.mpr
    intro line _
    have wrong := clean line
    rw [on_verify_case] at wrong
    rw [lineFailures, wrong]
    rfl

theorem diagnostics_on_filter (condition : Nat → Bool) (line : Nat) :
    diagnosticsOn line
        (diagnostics.filter fun diagnostic => condition diagnostic.location.startLine) =
      if condition line then diagnosticsOn line diagnostics else [] := by
  unfold diagnosticsOn
  rw [List.filter_filter]
  split
  · next kept =>
      apply List.filter_congr
      intro diagnostic _
      by_cases here : diagnostic.location.startLine = line
      · simp [here, kept]
      · simp [here]
  · next dropped =>
      apply List.filter_eq_nil_iff.mpr
      intro diagnostic _
      by_cases here : diagnostic.location.startLine = line
      · simp [here, dropped]
      · simp [here]

def casePart (condition : Nat → Bool) : CaseResult :=
  verifyCase name sourceLines (expectations.keep condition)
    (diagnostics.filter fun diagnostic => condition diagnostic.location.startLine)

theorem on_case_part (condition : Nat → Bool) (line : Nat) :
    (casePart name sourceLines expectations diagnostics condition).on line =
      if condition line then matchLine (expectations.get line) (diagnosticsOn line diagnostics)
      else [] := by
  rw [casePart, on_verify_case, Expectations.get_keep, diagnostics_on_filter]
  split <;> rfl

theorem case_part_of_mem_verify_cases {cases : List Case} {result : CaseResult}
    (member : result ∈ verifyCases cases sourceLines expectations diagnostics) :
    ∃ name condition, result = casePart name sourceLines expectations diagnostics condition := by
  rcases List.mem_append.mp member with ofType | stray
  · obtain ⟨case, -, rfl⟩ := List.mem_map.mp ofType
    exact ⟨case.name, case.contains, rfl⟩
  · split at stray
    · cases stray
    · exact ⟨Case.topLevel, _, List.mem_singleton.mp stray⟩

theorem exists_mem_verify_cases (cases : List Case) {line : Nat}
    (wrong : matchLine (expectations.get line) (diagnosticsOn line diagnostics) ≠ []) :
    ∃ result ∈ verifyCases cases sourceLines expectations diagnostics,
      result.on line = matchLine (expectations.get line) (diagnosticsOn line diagnostics) := by
  unfold verifyCases
  dsimp only
  by_cases inside : cases.any (fun case => case.contains line) = true
  · obtain ⟨case, member, contains⟩ := List.any_eq_true.mp inside
    refine ⟨casePart case.name sourceLines expectations diagnostics case.contains, ?_, ?_⟩
    · exact List.mem_append_left _ (List.mem_map.mpr ⟨case, member, rfl⟩)
    · rw [on_case_part, if_pos contains]
  · have outside : (!cases.any fun case => case.contains line) = true := by simpa using inside
    have whole := on_case_part Case.topLevel sourceLines expectations diagnostics
      (fun line => !cases.any fun case => case.contains line) line
    rw [if_pos outside] at whole
    refine ⟨_, List.mem_append_right _ ?_, whole⟩
    split
    · next nothing =>
        obtain ⟨noneExpected, noneReported⟩ := Bool.and_eq_true_iff.mp nothing
        rw [casePart, on_verify_case, Expectations.get_eq_nil_of_is_empty noneExpected,
          List.isEmpty_iff.mp noneReported] at whole
        exact absurd whole.symm wrong
    · exact List.mem_singleton.mpr rfl

theorem all_passed_iff (cases : List Case) :
    (verifyCases cases sourceLines expectations diagnostics).all CaseResult.passed = true ↔
      ∀ line, matchLine (expectations.get line) (diagnosticsOn line diagnostics) = [] := by
  rw [List.all_eq_true]
  constructor
  · intro passed line
    by_cases wrong : matchLine (expectations.get line) (diagnosticsOn line diagnostics) = []
    · exact wrong
    · obtain ⟨result, member, whole⟩ :=
        exists_mem_verify_cases sourceLines expectations diagnostics cases wrong
      have clean := passed result member
      obtain ⟨name, condition, rfl⟩ :=
        case_part_of_mem_verify_cases sourceLines expectations diagnostics member
      rw [← whole]
      exact (passed_verify_case_iff name sourceLines _ _).mp clean line
  · intro clean result member
    obtain ⟨name, condition, rfl⟩ :=
      case_part_of_mem_verify_cases sourceLines expectations diagnostics member
    apply (passed_verify_case_iff name sourceLines _ _).mpr
    intro line
    have whole := on_case_part name sourceLines expectations diagnostics condition line
    rw [clean line, ite_self] at whole
    exact whole

/-- What is wrong with a line of a document: what its comments state for the line, against what is
reported on it. -/
def wrongOn (document : Document) (reported : List Diagnostic) (line : Nat) : List Mismatch :=
  matchLine ((stated document).filter fun expectation => expectation.line == line)
    (diagnosticsOn line reported)

theorem start_line_of_mem {rules : Ruleset} {document : Document} {reported : List Diagnostic}
    (ended : Verdict.diagnoseAll? rules [document] = some reported) {diagnostic : Diagnostic}
    (member : diagnostic ∈ reported) :
    ∃ site ∈ document.root.descendants,
      diagnostic.location.startLine = document.firstRow site := by
  obtain ⟨parts, ofDocuments, rfl⟩ := Verdict.diagnose_with_eq_some_iff.mp ended
  obtain ⟨part, isPart, inPart⟩ := List.mem_flatten.mp member
  obtain ⟨other, listed, ofOther⟩ := Lists.exists_left_of_mem ofDocuments isPart
  cases List.mem_singleton.mp listed
  obtain ⟨site, isSite, about⟩ := Verdict.exists_site_of_mem ofOther inPart
  obtain ⟨_, -, described⟩ := Verdict.Audit.diagnose_describes _ about
  refine ⟨site, (List.mem_filter.mp isSite).1, ?_⟩
  rw [described.location]
  exact (Text.position_to_nat site.label.startByte.toNat_lt).1

theorem verify_eq {rules : Ruleset} {document : Document}
    (noErrors : (Expectations.ofDocument document).2.isEmpty = true) :
    verify? rules document =
      (Verdict.diagnoseAll? rules [document]).map fun reported =>
        let result : FixtureResult :=
          { path := document.path
            summary := summaryOf? document.text
            cases := verifyCases (Case.ofDocument document) (Text.lines document.text)
              (Expectations.ofDocument document).1 reported }
        if result.passed then .ok result else .error (.failing result) := by
  unfold verify?
  simp [noErrors]

/-- Where all comments can be read, a fixture is left without an answer exactly if the audit of the
document does not end. Otherwise it passes exactly if nothing is wrong with any line, its cases show
what is wrong with each line, as a whole or not at all, and no line is left out. -/
theorem verify_iff_lines (rules : Ruleset) (document : Document)
    (readable : ∀ comment ∈ document.root.descendantsOf .comment,
      isReadable document comment = true) :
    (verify? rules document = none ↔
      ∃ site ∈ Verdict.creationSites document,
        Verdict.Audit.Endless ⟨Inference.Model.ofDocuments rules.catalog [document], rules⟩ site) ∧
    ∀ reported, Verdict.diagnoseAll? rules [document] = some reported →
      ((∃ result, verify? rules document = some (.ok result)) ↔
        ∀ line, wrongOn document reported line = []) ∧
      (∃ result,
        (verify? rules document = some (.ok result) ∨
          verify? rules document = some (.error (.failing result))) ∧
        ∀ line,
          (wrongOn document reported line ≠ [] →
            ∃ case ∈ result.cases, case.on line = wrongOn document reported line) ∧
          ∀ case ∈ result.cases,
            case.on line = [] ∨ case.on line = wrongOn document reported line) ∧
      ∀ diagnostic ∈ reported, ∃ site ∈ document.root.descendants,
        diagnostic.location.startLine = document.firstRow site := by
  obtain ⟨noErrors, held⟩ := Expectations.get_of_document readable
  have verified := @verify_eq rules document (List.isEmpty_iff.mpr noErrors)
  constructor
  · rw [verified, Option.map_eq_none_iff, Verdict.diagnoseAll?, Verdict.diagnose_with_eq_none_iff]
    simp only [List.mem_singleton, exists_eq_left]
  intro reported ended
  have lines : ∀ line, wrongOn document reported line =
      matchLine ((Expectations.ofDocument document).1.get line)
        (diagnosticsOn line reported) := by
    intro line
    rw [wrongOn, held line]
  rw [ended, Option.map_some] at verified
  set result : FixtureResult :=
    { path := document.path
      summary := summaryOf? document.text
      cases := verifyCases (Case.ofDocument document) (Text.lines document.text)
        (Expectations.ofDocument document).1 reported } with isResult
  have passed : result.passed = true ↔ ∀ line, wrongOn document reported line = [] := by
    simp only [lines]
    exact all_passed_iff _ _ _ _
  refine ⟨?_, ⟨result, ?_, ?_⟩, fun diagnostic => start_line_of_mem ended⟩
  · rw [← passed, verified]
    constructor
    · rintro ⟨found, isOk⟩
      dsimp only at isOk
      split at isOk
      · next clean => exact clean
      · cases isOk
    · intro clean
      exact ⟨result, congrArg some (if_pos clean)⟩
  · rw [verified]
    dsimp only
    split
    · exact Or.inl rfl
    · exact Or.inr rfl
  · intro line
    rw [lines line]
    constructor
    · exact exists_mem_verify_cases _ _ _ (Case.ofDocument document)
    · intro case member
      obtain ⟨name, condition, rfl⟩ := case_part_of_mem_verify_cases _ _ _ member
      rw [on_case_part]
      split
      · exact Or.inr rfl
      · exact Or.inl rfl

def sharedText : String :=
  "class P \x7b void M() \x7b new P(); \x7d \x7d class Q \x7b \x7d //~ anonymous"

def sharedLine : List Outline :=
  [classWith 0 33 [methodWith 10 31 [creationStatement 21]], classWith 34 45 [],
    .node .comment true none 46 59 []]

def sharedDocument : Document :=
  .ofOutline "shared.cs" sharedText (unit 59 sharedLine)

def strayDocument : Document :=
  .ofOutline "stray.cs" (sharedText ++ "\n//~ local")
    (unit 69 (sharedLine ++ [.node .comment true none 60 69 []]))

theorem verify_iff_lines_shared :
    (∀ comment ∈ sharedDocument.root.descendantsOf .comment,
      isReadable sharedDocument comment = true) ∧
    (Case.ofDocument sharedDocument).map (fun case => (case.firstLine, case.lastLine)) =
      [(0, 0), (0, 0)] ∧
    (∃ reported, Verdict.diagnoseAll? Verdict.partsRules [sharedDocument] = some reported ∧
      ∀ line, wrongOn sharedDocument reported line = []) ∧
    (∀ comment ∈ strayDocument.root.descendantsOf .comment,
      isReadable strayDocument comment = true) ∧
    ∃ reported, Verdict.diagnoseAll? Verdict.partsRules [strayDocument] = some reported ∧
      wrongOn strayDocument reported 1 = [.missing ⟨.localVariable, none, 1, "local"⟩] ∧
      ¬∃ result, verify? Verdict.partsRules strayDocument = some (.ok result) := by
  have shared : ∀ comment ∈ sharedDocument.root.descendantsOf .comment,
      isReadable sharedDocument comment = true := by decide +kernel
  have stray : ∀ comment ∈ strayDocument.root.descendantsOf .comment,
      isReadable strayDocument comment = true := by decide +kernel
  have passes : ((verify? Verdict.partsRules sharedDocument).any Except.isOk) = true := by
    decide +kernel
  have wrong : (Verdict.diagnoseAll? Verdict.partsRules [strayDocument]).map
      (wrongOn strayDocument · 1) = some [.missing ⟨.localVariable, none, 1, "local"⟩] := by
    decide +kernel
  refine ⟨shared, by decide +kernel, ?_, stray, ?_⟩
  · have ends : (Verdict.diagnoseAll? Verdict.partsRules [sharedDocument]).isSome = true := by
      decide +kernel
    obtain ⟨reported, ended⟩ := Option.isSome_iff_exists.mp ends
    refine ⟨reported, ended, ?_⟩
    apply ((verify_iff_lines Verdict.partsRules sharedDocument shared).2 reported ended).1.mp
    cases verified : verify? Verdict.partsRules sharedDocument with
    | none =>
        rw [verified] at passes
        cases passes
    | some answer =>
        cases answer with
        | ok result => exact ⟨result, rfl⟩
        | error error =>
            rw [verified] at passes
            cases passes
  · obtain ⟨reported, ended, wrong⟩ := Option.map_eq_some_iff.mp wrong
    refine ⟨reported, ended, wrong, ?_⟩
    intro isOk
    have judged := (verify_iff_lines Verdict.partsRules strayDocument stray).2 reported ended
    have clean := judged.1.mp isOk 1
    rw [wrong] at clean
    cases clean

end ReleaseAudit.Fixture
