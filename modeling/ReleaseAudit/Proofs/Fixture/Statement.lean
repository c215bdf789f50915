import ReleaseAudit.Proofs.Fixture.Pairing
import ReleaseAudit.Proofs.Text.Lines

/-!
# Expectations can state every line exactly

What a line reports can be written as an expectation comment, which is read
back as one expectation for each diagnostic. A line satisfies these exactly if it
reports the same findings, each as often.
-/

namespace ReleaseAudit.Text

set_option autoImplicit false

def IsTrimmed (characters : List Char) : Prop :=
  characters.head?.any isBlank = false ∧ characters.getLast?.any isBlank = false

theorem drop_while_is_blank {characters : List Char}
    (begins : characters.head?.any isBlank = false) :
    characters.dropWhile isBlank = characters := by
  cases characters with
  | nil => rfl
  | cons character rest =>
      have inked : isBlank character = false := begins
      rw [List.dropWhile_cons, if_neg (by simp [inked])]

theorem trim_chars_of_is_trimmed {characters : List Char} (trimmed : IsTrimmed characters) :
    trimChars characters = characters := by
  obtain ⟨begins, ends⟩ := trimmed
  rw [← List.head?_reverse] at ends
  rw [trimChars, drop_while_is_blank begins, dropEndWhile, drop_while_is_blank ends,
    List.reverse_reverse]

theorem trim_chars_blank (characters : List Char) :
    trimChars (' ' :: characters) = trimChars characters := by
  have blank : isBlank ' ' = true := by decide
  rw [trimChars, List.dropWhile_cons, if_pos blank, trimChars]

/-- A blank after a mark changes nothing in the trimmed pieces. -/
theorem map_trim_chars_pieces_blank {mark : Char} (other : ' ' ≠ mark) (characters : List Char) :
    (pieces mark (' ' :: characters)).map trimChars = (pieces mark characters).map trimChars := by
  obtain ⟨piece, more, isPieces⟩ := List.exists_cons_of_ne_nil (pieces_ne_nil mark characters)
  simp [pieces, other, isPieces, trim_chars_blank]

theorem cut_first_append {mark : Char} {before : List Char} (absent : mark ∉ before)
    (after : List Char) : cutFirst? mark (before ++ mark :: after) = some (before, after) := by
  induction before with
  | nil => simp [cutFirst?]
  | cons character rest ih =>
      have differs : character ≠ mark := fun same => absent (same ▸ List.mem_cons_self)
      have absentRest : mark ∉ rest := fun member => absent (List.mem_cons_of_mem _ member)
      simp [cutFirst?, differs, ih absentRest]

end ReleaseAudit.Text

namespace ReleaseAudit.Fixture

set_option autoImplicit false

open Verdict (Diagnostic Holder)

/-- A text that can stand between the commas of a comment: not empty, without commas of its own
and without blanks at either end. -/
structure IsPart (text : String) : Prop where
  ne_empty : text ≠ ""
  no_comma : ',' ∉ text.toList
  trimmed : Text.IsTrimmed text.toList

/-- Anonymous resources have no name, all others one that a comment can spell. -/
def IsStatable (diagnostic : Diagnostic) : Prop :=
  if diagnostic.holder = .anonymous then diagnostic.variableName = none
  else ∃ name, diagnostic.variableName = some name ∧ IsPart name

def finding (diagnostic : Diagnostic) : Holder × Option String :=
  (diagnostic.holder, diagnostic.variableName)

/-- A diagnostic as an expectation comment spells it. -/
def statement (diagnostic : Diagnostic) : String :=
  diagnostic.holder.label ++ diagnostic.variableName.elim "" (": " ++ ·)

def statements (diagnostics : List Diagnostic) : String :=
  String.intercalate ", " (diagnostics.map statement)

def expectationOf (line : Nat) (diagnostic : Diagnostic) : Expectation :=
  ⟨diagnostic.holder, diagnostic.variableName, line, statement diagnostic⟩

theorem map_trim_chars_intercalate {parts : List String} (areParts : ∀ part ∈ parts, IsPart part)
    (some : parts ≠ []) :
    (Text.pieces ',' (String.intercalate ", " parts).toList).map Text.trimChars =
      parts.map String.toList := by
  induction parts with
  | nil => exact absurd rfl some
  | cons part rest ih =>
      have isPart := areParts part List.mem_cons_self
      have alone := Text.trim_chars_of_is_trimmed isPart.trimmed
      cases rest with
      | nil =>
          rw [String.intercalate_singleton, Text.pieces_of_not_mem isPart.no_comma]
          simp [alone]
      | cons next more =>
          have later := ih (fun other member => areParts other (List.mem_cons_of_mem _ member))
            (List.cons_ne_nil next more)
          have joined : (String.intercalate ", " (part :: next :: more)).toList =
              part.toList ++ ',' :: ' ' :: (String.intercalate ", " (next :: more)).toList := by
            rw [String.intercalate_cons_cons]
            simp
          rw [joined, Text.pieces_append_mark, Text.pieces_of_not_mem isPart.no_comma,
            List.map_append, Text.map_trim_chars_pieces_blank (by decide), later]
          simp [alone]

theorem parts_of_intercalate {parts : List String} (areParts : ∀ part ∈ parts, IsPart part) :
    Expectation.partsOf (String.intercalate ", " parts) = parts := by
  by_cases none : parts = []
  · subst none
    decide
  · have trimmed := map_trim_chars_intercalate areParts none
    have split : (Text.split ',' (String.intercalate ", " parts)).map Text.trim = parts := by
      have texts := congrArg (List.map String.ofList) trimmed
      simpa [Text.split, Text.trim, Function.comp_def] using texts
    rw [Expectation.partsOf, split, List.filter_eq_self]
    intro part member
    simp [(areParts part member).ne_empty]

theorem holder_of_label (holder : Holder) : Expectation.holderOf? holder.label = some holder := by
  cases holder <;> decide

theorem trim_label (holder : Holder) : Text.trim holder.label = holder.label := by
  cases holder <;> decide

theorem label_plain (holder : Holder) :
    holder.label.toList.head?.any Text.isBlank = false ∧ holder.label.toList ≠ [] ∧
      ',' ∉ holder.label.toList ∧ ':' ∉ holder.label.toList := by
  cases holder <;> decide

theorem statement_cases {diagnostic : Diagnostic} (statable : IsStatable diagnostic) :
    (diagnostic.holder = .anonymous ∧ diagnostic.variableName = none ∧
        statement diagnostic = "anonymous") ∨
      ∃ name, diagnostic.holder ≠ .anonymous ∧ diagnostic.variableName = some name ∧
        IsPart name ∧ (statement diagnostic).toList =
          diagnostic.holder.label.toList ++ ':' :: ' ' :: name.toList := by
  unfold IsStatable at statable
  split at statable
  next anonymous =>
    left
    refine ⟨anonymous, statable, ?_⟩
    rw [statement, statable, anonymous]
    decide
  next named =>
    right
    obtain ⟨name, isName, isPart⟩ := statable
    refine ⟨name, named, isName, isPart, ?_⟩
    rw [statement, isName]
    simp

theorem is_part_statement {diagnostic : Diagnostic} (statable : IsStatable diagnostic) :
    IsPart (statement diagnostic) := by
  rcases statement_cases statable with ⟨-, -, isText⟩ | ⟨name, -, -, isPart, isText⟩
  · rw [isText]
    exact ⟨by decide, by decide, by decide, by decide⟩
  · obtain ⟨begins, some, noComma, -⟩ := label_plain diagnostic.holder
    have nameSome : name.toList ≠ [] := mt String.toList_eq_nil_iff.mp isPart.ne_empty
    refine ⟨?_, ?_, ?_, ?_⟩
    · rw [Ne, ← String.toList_eq_nil_iff, isText]
      simp
    · rw [isText]
      simp [noComma, isPart.no_comma]
    · rwa [isText, List.head?_append_of_ne_nil _ some]
    · have joined : (statement diagnostic).toList =
          diagnostic.holder.label.toList ++ [':', ' '] ++ name.toList := by
        simp [isText]
      rw [joined, List.getLast?_append_of_ne_nil _ nameSome]
      exact isPart.trimmed.2

theorem split_name_statement {diagnostic : Diagnostic} (statable : IsStatable diagnostic) :
    Expectation.splitName (statement diagnostic) =
      (diagnostic.holder.label, diagnostic.variableName) := by
  rcases statement_cases statable with ⟨isHolder, isName, isText⟩ |
    ⟨name, -, isName, isPart, isText⟩
  · rw [isText, isHolder, isName]
    decide
  · have noColon := (label_plain diagnostic.holder).2.2.2
    have trimmed := Text.trim_chars_of_is_trimmed isPart.trimmed
    unfold Expectation.splitName Text.splitFirst?
    rw [isText, Text.cut_first_append noColon, Option.map_some, String.ofList_toList, isName]
    dsimp only
    rw [trim_label, Text.trim, String.toList_ofList, Text.trim_chars_blank, trimmed,
      String.ofList_toList]

theorem parse_one_statement {diagnostic : Diagnostic} (statable : IsStatable diagnostic)
    (line : Nat) :
    Expectation.parseOne line (statement diagnostic) = .ok (expectationOf line diagnostic) := by
  have named : diagnostic.variableName ≠ some "" ∧
      ¬ (diagnostic.holder = .anonymous ∧ diagnostic.variableName.isSome = true) := by
    rcases statement_cases statable with ⟨-, isName, -⟩ | ⟨name, isHolder, isName, isPart, -⟩
    · simp [isName]
    · simp [isName, isHolder, isPart.ne_empty]
  rw [Expectation.parseOne, split_name_statement statable]
  dsimp only
  rw [holder_of_label]
  dsimp only
  rw [if_neg named.1, if_neg named.2]
  rfl

theorem map_m_map_eq_ok {Item Value Error : Type} {spell : Item → String}
    {read : String → Except Error Value} {value : Item → Value} {items : List Item}
    (reads : ∀ item ∈ items, read (spell item) = .ok (value item)) :
    (items.map spell).mapM read = .ok (items.map value) := by
  induction items with
  | nil => rfl
  | cons item rest ih =>
      have first := reads item List.mem_cons_self
      have later := ih fun other member => reads other (List.mem_cons_of_mem _ member)
      rw [List.map_cons, List.mapM_cons, first, later]
      rfl

/-- A comment that states diagnostics is read as one expectation for each of them. -/
theorem parse_content_statements {diagnostics : List Diagnostic}
    (statable : ∀ diagnostic ∈ diagnostics, IsStatable diagnostic) (line : Nat) :
    Expectation.parseContent line (statements diagnostics) =
      .ok (diagnostics.map (expectationOf line)) := by
  have areParts : ∀ part ∈ diagnostics.map statement, IsPart part :=
    List.forall_mem_map.mpr fun diagnostic member => is_part_statement (statable diagnostic member)
  rw [Expectation.parseContent, statements, parts_of_intercalate areParts]
  exact map_m_map_eq_ok fun diagnostic member => parse_one_statement
    (statable diagnostic member) line

/-- Where every expectation asks for one finding only, the claims come out even exactly if both
sides have the same findings, each as often. -/
theorem claim_all_even_iff {wanted : Expectation → Holder × Option String}
    {expectations : List Expectation} {diagnostics : List Diagnostic}
    (precise : ∀ expectation ∈ expectations, ∀ diagnostic ∈ diagnostics,
      (expectation.accepts diagnostic = true ↔ wanted expectation = finding diagnostic)) :
    ((claimAll expectations diagnostics).missing = [] ∧
        (claimAll expectations diagnostics).unclaimed = []) ↔
      (expectations.map wanted).Perm (diagnostics.map finding) := by
  fun_induction claimAll expectations diagnostics with
  | case1 diagnostics => simp
  | case2 expectation rest diagnostics found ih =>
      obtain ⟨candidate, isCandidate, fits⟩ := List.any_eq_true.mp found
      obtain ⟨diagnostic, before, after, -, accepts, isSplit, isErased⟩ :=
        List.exists_of_eraseP isCandidate fits
      have front : diagnostics.Perm (diagnostic :: diagnostics.eraseP expectation.accepts) := by
        rw [isErased, isSplit]
        exact List.perm_middle
      have sameFinding : wanted expectation = finding diagnostic :=
        (precise expectation List.mem_cons_self diagnostic
          (front.mem_iff.mpr List.mem_cons_self)).mp accepts
      rw [ih ?_, (front.map finding).congr_right, List.map_cons, List.map_cons, sameFinding,
        List.perm_cons]
      intro other member left leftMember
      exact precise other (List.mem_cons_of_mem _ member) left (List.mem_of_mem_eraseP leftMember)
  | case3 expectation rest diagnostics unfound later ih =>
      -- Nobody else has the finding that this expectation asks for.
      have absent : wanted expectation ∉ diagnostics.map finding := by
        intro member
        obtain ⟨diagnostic, isReported, same⟩ := List.mem_map.mp member
        have accepts := (precise expectation List.mem_cons_self diagnostic isReported).mpr same.symm
        exact unfound (List.any_eq_true.mpr ⟨diagnostic, isReported, accepts⟩)
      constructor
      · rintro ⟨missing, -⟩
        cases missing
      · intro even
        exact absurd (even.mem_iff.mp List.mem_cons_self) absent

/-- Among diagnostics that a comment can state, an expectation accepts its own finding only. -/
theorem accepts_expectation_of_iff {line : Nat} {stated diagnostic : Diagnostic}
    (statedStatable : IsStatable stated) (statable : IsStatable diagnostic) :
    (expectationOf line stated).accepts diagnostic = true ↔
      finding stated = finding diagnostic := by
  rw [Expectation.accepts_iff, finding, finding, Prod.mk.injEq]
  refine and_congr_right fun sameHolder => ?_
  change (∀ name ∈ stated.variableName, diagnostic.variableName = some name) ↔ _
  rcases statement_cases statedStatable with ⟨isHolder, isName, -⟩ | ⟨name, -, isName, -, -⟩
  · -- Any name would do, but nothing of this kind has a name.
    have unnamed : diagnostic.variableName = none := by
      rcases statement_cases statable with ⟨-, isNone, -⟩ | ⟨_, named, -⟩
      · exact isNone
      · exact absurd (sameHolder.symm.trans isHolder) named
    simp [isName, unnamed]
  · simp [isName, eq_comm]

theorem match_line_eq_nil_iff {wanted : Expectation → Holder × Option String}
    {expectations : List Expectation} {diagnostics : List Diagnostic}
    (precise : ∀ expectation ∈ expectations, ∀ diagnostic ∈ diagnostics,
      (expectation.accepts diagnostic = true ↔ wanted expectation = finding diagnostic)) :
    matchLine expectations diagnostics = [] ↔
      (expectations.map wanted).Perm (diagnostics.map finding) := by
  have ordered := named_first_perm expectations
  have preciseOrdered : ∀ expectation ∈ namedFirst expectations, ∀ diagnostic ∈ diagnostics,
      (expectation.accepts diagnostic = true ↔ wanted expectation = finding diagnostic) :=
    fun expectation member => precise expectation (ordered.mem_iff.mp member)
  rw [matchLine, List.append_eq_nil_iff, List.map_eq_nil_iff, List.map_eq_nil_iff,
    claim_all_even_iff preciseOrdered, (ordered.map wanted).congr_left]

/-- What a line reports can be stated in one comment. It is read as one expectation for each
diagnostic, and another line satisfies these exactly if it reports the same findings, each as
often. -/
theorem statements_state_exactly (line : Nat) (diagnostics : List Diagnostic)
    (statable : ∀ diagnostic ∈ diagnostics, IsStatable diagnostic) :
    Expectation.parseContent line (statements diagnostics) =
        .ok (diagnostics.map (expectationOf line)) ∧
      ∀ reported : List Diagnostic, (∀ diagnostic ∈ reported, IsStatable diagnostic) →
        (matchLine (diagnostics.map (expectationOf line)) reported = [] ↔
          ∀ pair, (reported.map finding).count pair = (diagnostics.map finding).count pair) := by
  refine ⟨parse_content_statements statable line, ?_⟩
  intro reported reportedStatable
  have precise : ∀ expectation ∈ diagnostics.map (expectationOf line), ∀ diagnostic ∈ reported,
      (expectation.accepts diagnostic = true ↔
        (expectation.holder, expectation.name) = finding diagnostic) := by
    intro expectation member diagnostic isReported
    obtain ⟨stated, isStated, rfl⟩ := List.mem_map.mp member
    exact accepts_expectation_of_iff (statable stated isStated)
      (reportedStatable diagnostic isReported)
  have wanted : (diagnostics.map (expectationOf line)).map
      (fun expectation => (expectation.holder, expectation.name)) = diagnostics.map finding := by
    rw [List.map_map]
    rfl
  rw [match_line_eq_nil_iff precise, wanted, List.perm_iff_count]
  exact forall_congr' fun pair => eq_comm

def unreleasedAnonymous : Diagnostic :=
  { unreleasedLocal "" with holder := .anonymous, variableName := none }

/-- Twice the same finding: a line that reports it once is not what is stated. -/
theorem statements_state_exactly_repeated :
    statements [unreleasedLocal "log", unreleasedAnonymous, unreleasedLocal "log"] =
        "local: log, anonymous, local: log" ∧
      Expectation.parseContent 3 "local: log, anonymous, local: log" =
        .ok ([unreleasedLocal "log", unreleasedAnonymous, unreleasedLocal "log"].map
          (expectationOf 3)) ∧
      matchLine ([unreleasedLocal "log", unreleasedAnonymous, unreleasedLocal "log"].map
          (expectationOf 3)) [unreleasedAnonymous, unreleasedLocal "log"] ≠ [] := by
  have named : IsStatable (unreleasedLocal "log") :=
    ⟨"log", rfl, by decide, by decide, by decide, by decide⟩
  have unnamed : IsStatable unreleasedAnonymous := rfl
  have text : statements [unreleasedLocal "log", unreleasedAnonymous, unreleasedLocal "log"] =
      "local: log, anonymous, local: log" := by
    decide
  obtain ⟨isRead, exactly⟩ :=
    statements_state_exactly 3 [unreleasedLocal "log", unreleasedAnonymous, unreleasedLocal "log"]
      (by simp [named, unnamed])
  rw [text] at isRead
  refine ⟨text, isRead, ?_⟩
  rw [Ne, exactly _ (by simp [named, unnamed])]
  intro sameCounts
  exact absurd (sameCounts (.localVariable, some "log")) (by decide)

end ReleaseAudit.Fixture
