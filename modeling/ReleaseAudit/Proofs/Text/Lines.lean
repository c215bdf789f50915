import ReleaseAudit.Proofs.Text.Position
import ReleaseAudit.Text.Position

/-!
# Lines, pieces and slices

Cutting a text at a mark cuts the parts on both sides of that mark. So the lines
of a text are those above an offset's line, that line, and those below, and the
offset's line is what stands before the offset on it with the first line of what
stands behind.
-/

namespace ReleaseAudit.Text

set_option autoImplicit false

theorem drop_bytes_cons (character : Char) (count : Nat) (rest : List Char) :
    dropBytes? (character.utf8Size + count) (character :: rest) = dropBytes? count rest := by
  have positive := character.utf8Size_pos
  obtain ⟨size, isSize⟩ : ∃ size, character.utf8Size + count = size + 1 :=
    ⟨character.utf8Size + count - 1, by omega⟩
  rw [isSize, dropBytes?, if_pos (by omega), ← isSize, Nat.add_sub_cancel_left]

theorem take_bytes_cons (character : Char) (count : Nat) (rest : List Char) :
    takeBytes? (character.utf8Size + count) (character :: rest) =
      (takeBytes? count rest).map (character :: ·) := by
  have positive := character.utf8Size_pos
  obtain ⟨size, isSize⟩ : ∃ size, character.utf8Size + count = size + 1 :=
    ⟨character.utf8Size + count - 1, by omega⟩
  rw [isSize, takeBytes?, if_pos (by omega), ← isSize, Nat.add_sub_cancel_left]

theorem drop_bytes_append (before after : List Char) :
    dropBytes? (String.ofList before).utf8ByteSize (before ++ after) = some after := by
  induction before with
  | nil => cases after <;> rfl
  | cons character rest ih =>
      rw [String.ofList_cons, String.utf8ByteSize_append, String.utf8ByteSize_singleton,
        List.cons_append, drop_bytes_cons, ih]

theorem take_bytes_append (inside after : List Char) :
    takeBytes? (String.ofList inside).utf8ByteSize (inside ++ after) = some inside := by
  induction inside with
  | nil => cases after <;> rfl
  | cons character rest ih =>
      rw [String.ofList_cons, String.utf8ByteSize_append, String.utf8ByteSize_singleton,
        List.cons_append, take_bytes_cons, ih]
      rfl

theorem slice_of_split (before inside after : String) :
    slice (before ++ inside ++ after) before.utf8ByteSize (before ++ inside).utf8ByteSize =
      inside := by
  have dropped := drop_bytes_append before.toList (inside ++ after).toList
  have taken := take_bytes_append inside.toList after.toList
  rw [String.ofList_toList] at dropped taken
  rw [slice, sliceChars?, if_pos (by rw [String.utf8ByteSize_append]; omega), String.append_assoc,
    String.toList_append, dropped, String.utf8ByteSize_append, Nat.add_sub_cancel_left,
    Option.bind_some, String.toList_append, taken, Option.getD_some, String.ofList_toList]

theorem pieces_append_mark (mark : Char) (left right : List Char) :
    pieces mark (left ++ mark :: right) = pieces mark left ++ pieces mark right := by
  induction left with
  | nil => simp [pieces]
  | cons character rest ih =>
      obtain ⟨piece, more, isPieces⟩ := List.exists_cons_of_ne_nil (pieces_ne_nil mark rest)
      by_cases isMark : character = mark
      · simp [pieces, isMark, ih]
      · simp [pieces, isMark, ih, isPieces]

theorem pieces_of_not_mem {mark : Char} {characters : List Char} (absent : mark ∉ characters) :
    pieces mark characters = [characters] := by
  induction characters with
  | nil => rfl
  | cons character rest ih =>
      have differs : character ≠ mark := fun same => absent (same ▸ List.mem_cons_self)
      have absentRest : mark ∉ rest := fun member => absent (List.mem_cons_of_mem _ member)
      simp [pieces, differs, ih absentRest]

theorem length_pieces (mark : Char) (characters : List Char) :
    (pieces mark characters).length = characters.count mark + 1 := by
  induction characters with
  | nil => rfl
  | cons character rest ih =>
      obtain ⟨piece, more, isPieces⟩ := List.exists_cons_of_ne_nil (pieces_ne_nil mark rest)
      by_cases isMark : character = mark
      · simp [pieces, isMark, ih]
      · rw [isPieces, List.length_cons] at ih
        simp [pieces, isMark, isPieces, Nat.add_right_cancel ih]

/-- A line feed comes first, or a carriage return that belongs to one. -/
def BeginsLineBreak (characters : List Char) : Prop :=
  ['\n'] <+: characters ∨ ['\r', '\n'] <+: characters

instance (characters : List Char) : Decidable (BeginsLineBreak characters) :=
  inferInstanceAs (Decidable (_ ∨ _))

def EndsLine (characters : List Char) : Prop :=
  characters = [] ∨ ∃ before, characters = before ++ ['\n']

theorem close_rows_append (above : List (List Char)) {below : List (List Char)}
    (some : below ≠ []) :
    closeRows (above ++ below) = above.map dropCarriageReturn ++ closeRows below := by
  induction above with
  | nil => rfl
  | cons row rest ih =>
      obtain ⟨next, more, isRest⟩ :=
        List.exists_cons_of_ne_nil (List.append_ne_nil_of_right_ne_nil rest some)
      rw [List.cons_append, isRest, closeRows, ← isRest, ih]
      rfl

theorem line_chars_append_feed (above below : List Char) :
    lineChars (above ++ '\n' :: below) =
      (pieces '\n' above).map dropCarriageReturn ++ lineChars below := by
  rw [lineChars, pieces_append_mark, close_rows_append _ (pieces_ne_nil _ _)]
  rfl

/-- Whole lines stay the lines they are, whatever comes below. -/
theorem line_chars_append {above : List Char} (ended : EndsLine above) (below : List Char) :
    lineChars (above ++ below) = lineChars above ++ lineChars below := by
  rcases ended with rfl | ⟨before, rfl⟩
  · rfl
  · have alone := line_chars_append_feed before []
    rw [List.append_assoc, List.singleton_append, line_chars_append_feed, alone]
    simp [lineChars, pieces, closeRows]

theorem length_line_chars {above : List Char} (ended : EndsLine above) :
    (lineChars above).length = above.count '\n' := by
  rcases ended with rfl | ⟨before, rfl⟩
  · rfl
  · rw [line_chars_append_feed, List.length_append, List.length_map, length_pieces,
      List.count_append]
    rfl

theorem drop_carriage_return_concat (before : List Char) (last : Char) :
    dropCarriageReturn (before ++ [last]) = if last = '\r' then before else before ++ [last] := by
  unfold dropCarriageReturn
  rw [List.reverse_append, List.reverse_singleton, List.singleton_append]
  split
  next isReturn =>
    obtain ⟨rfl, rfl⟩ := List.cons.inj isReturn
    simp
  next noReturn =>
    rw [if_neg]
    rintro rfl
    exact noReturn _ rfl

theorem drop_carriage_return_append (left : List Char) {row : List Char} (some : row ≠ []) :
    dropCarriageReturn (left ++ row) = left ++ dropCarriageReturn row := by
  rw [← List.dropLast_append_getLast some, ← List.append_assoc, drop_carriage_return_concat,
    drop_carriage_return_concat]
  split <;> simp

/-- Of a row that ends with a line feed, the line is what does not belong to the line break. -/
theorem exists_line_of_row {row below : List Char}
    (visible : ¬ BeginsLineBreak (row ++ '\n' :: below)) :
    dropCarriageReturn row ≠ [] ∧ ∃ ending, BeginsLineBreak ending ∧
      row ++ '\n' :: below = dropCarriageReturn row ++ ending := by
  have some : row ≠ [] := by
    rintro rfl
    exact visible (Or.inl ⟨below, rfl⟩)
  obtain ⟨before, last, rfl⟩ : ∃ before last, row = before ++ [last] :=
    ⟨_, _, (List.dropLast_append_getLast some).symm⟩
  rw [drop_carriage_return_concat]
  split
  next isReturn =>
    subst isReturn
    refine ⟨?_, '\r' :: '\n' :: below, Or.inr ⟨below, rfl⟩, by simp⟩
    rintro rfl
    exact visible (Or.inr ⟨below, rfl⟩)
  next => exact ⟨by simp, '\n' :: below, Or.inl ⟨below, rfl⟩, rfl⟩

theorem line_chars_of_not_mem {row : List Char} (absent : '\n' ∉ row) (some : row ≠ []) :
    lineChars row = [row] := by
  simp [lineChars, pieces_of_not_mem absent, closeRows, some]

theorem line_chars_row {row : List Char} (absent : '\n' ∉ row) (below : List Char) :
    lineChars (row ++ '\n' :: below) = dropCarriageReturn row :: lineChars below := by
  rw [line_chars_append_feed, pieces_of_not_mem absent]
  rfl

/-- The first line of a text that does not begin with a line break goes on a line that was begun
before. -/
theorem exists_first_line {characters : List Char} (some : characters ≠ [])
    (visible : ¬ BeginsLineBreak characters) :
    ∃ line more ending, line ≠ [] ∧ characters = line ++ ending ∧
      (ending = [] ∨ BeginsLineBreak ending) ∧ lineChars characters = line :: more ∧
      ∀ left, '\n' ∉ left → lineChars (left ++ characters) = (left ++ line) :: more := by
  by_cases broken : '\n' ∈ characters
  · obtain ⟨row, below, rfl, absent⟩ := List.eq_append_cons_of_mem broken
    obtain ⟨lineSome, ending, isBreak, isRow⟩ := exists_line_of_row visible
    refine ⟨dropCarriageReturn row, lineChars below, ending, lineSome, isRow, Or.inr isBreak,
      line_chars_row absent below, ?_⟩
    intro left leftAbsent
    have rowSome : row ≠ [] := by
      rintro rfl
      exact lineSome rfl
    have bothAbsent : '\n' ∉ left ++ row := by
      simp [leftAbsent, absent]
    rw [← List.append_assoc, line_chars_row bothAbsent, drop_carriage_return_append left rowSome]
  · refine ⟨characters, [], [], some, by simp, Or.inl rfl, line_chars_of_not_mem broken some, ?_⟩
    intro left leftAbsent
    have bothAbsent : '\n' ∉ left ++ characters := by
      simp [leftAbsent, broken]
    exact line_chars_of_not_mem bothAbsent (List.append_ne_nil_of_right_ne_nil left some)

theorem head_line_chars_append {characters : List Char} (broken : '\n' ∈ characters)
    (more : List Char) : (lineChars (characters ++ more)).head? = (lineChars characters).head? := by
  obtain ⟨row, below, rfl, absent⟩ := List.eq_append_cons_of_mem broken
  rw [List.append_assoc, List.cons_append, line_chars_row absent, line_chars_row absent]
  rfl

/-- The line with the given index is the one that the byte at the offset belongs to: whole lines
stand above it, a line break or nothing below. -/
structure LineAt (text : String) (offset index : Nat) (line : String) : Prop where
  listed : (lines text)[index]? = some line
  placed : ∃ above below, text = above ++ line ++ below ∧ EndsLine above.toList ∧
    (below = "" ∨ BeginsLineBreak below.toList) ∧
    above.utf8ByteSize ≤ offset ∧ offset < (above ++ line).utf8ByteSize

theorem ends_line_rdrop_while (characters : List Char) :
    EndsLine (characters.rdropWhile (· != '\n')) := by
  by_cases empty : characters.rdropWhile (· != '\n') = []
  · exact Or.inl empty
  · have last := List.rdropWhile_last_not _ characters empty
    refine Or.inr ⟨(characters.rdropWhile (· != '\n')).dropLast, ?_⟩
    have isFeed : (characters.rdropWhile (· != '\n')).getLast empty = '\n' := by
      simpa using last
    have joined := List.dropLast_append_getLast empty
    rw [isFeed] at joined
    exact joined.symm

theorem not_mem_rtake_while (characters : List Char) :
    '\n' ∉ characters.rtakeWhile (· != '\n') := by
  intro member
  simpa using List.mem_rtakeWhile_imp member

/-- The line of an offset is what it holds before the offset, with the first line of the rest. -/
theorem exists_line_at (before : String) {rest : String} (some : rest ≠ "")
    (visible : ¬ BeginsLineBreak rest.toList) :
    ∃ first : List Char, first ≠ [] ∧ first <+: rest.toList ∧
      (lineChars rest.toList).head? = Option.some first ∧
      LineAt (before ++ rest) before.utf8ByteSize (before.toList.count '\n')
        (String.ofList (before.toList.rtakeWhile (· != '\n') ++ first)) := by
  obtain ⟨first, more, ending, firstSome, isRest, isEnding, isLines, continued⟩ :=
    exists_first_line (mt String.toList_eq_nil_iff.mp some) visible
  have cut := List.rdropWhile_append_rtakeWhile (p := (· != '\n')) (l := before.toList)
  have ended := ends_line_rdrop_while before.toList
  have absent := not_mem_rtake_while before.toList
  generalize before.toList.rdropWhile (· != '\n') = above at cut ended
  generalize before.toList.rtakeWhile (· != '\n') = left at cut absent ⊢
  refine ⟨first, firstSome, ⟨ending, isRest.symm⟩, by rw [isLines]; rfl, ?_, ?_⟩
  · have linesAbove : before.toList.count '\n' = (lineChars above).length := by
      rw [← cut, List.count_append, List.count_eq_zero.mpr absent, length_line_chars ended]
      rfl
    rw [lines, String.toList_append, ← cut, List.append_assoc, line_chars_append ended,
      continued left absent, cut, linesAbove]
    simp
  · have sizes : before.utf8ByteSize =
        (String.ofList above).utf8ByteSize + (String.ofList left).utf8ByteSize := by
      rw [← String.utf8ByteSize_append, ← String.ofList_append, cut, String.ofList_toList]
    refine ⟨String.ofList above, String.ofList ending, ?_, ?_, ?_, ?_, ?_⟩
    · apply String.toList_injective
      simp [← cut, isRest]
    · rwa [String.toList_ofList]
    · rw [String.toList_ofList]
      exact isEnding.imp_left fun nothing => by rw [nothing]
    · rw [sizes]
      omega
    · have firstSize : 0 < (String.ofList first).utf8ByteSize := by
        rw [Nat.pos_iff_ne_zero, Ne, String.utf8ByteSize_eq_zero_iff]
        exact fun nothing => firstSome (String.ofList_eq_empty_iff.mp nothing)
      rw [sizes, String.ofList_append, String.utf8ByteSize_append, String.utf8ByteSize_append]
      omega

end ReleaseAudit.Text
