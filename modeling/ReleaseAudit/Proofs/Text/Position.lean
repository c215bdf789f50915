import Mathlib.Data.List.DropRight
import ReleaseAudit.Proofs.Types.Bytes
import ReleaseAudit.Report.Editor

/-!
# Positions are faithful

A position counts line feeds, and a line feed is one byte that occurs in no
other character. On its own line, a position counts the characters that start
before the offset, those beyond 16 bits twice in UTF-16. Both counts are kept in
32 bits, which is enough for every text of fewer bytes: no character takes more
columns than bytes. There every character moves the position forward, so offsets
between characters keep their order.
-/

namespace ReleaseAudit.Text

set_option autoImplicit false

open Types.TypeRef (bytesOfChar bytes_of_char_ascii wide_of_mem_bytes_of_char)

/-- On an earlier line, or further left on the same line. -/
def Position.Before (first second : Position) : Prop :=
  first.line < second.line ∨ first.line = second.line ∧ first.column < second.column

/-- The characters of the offset's own line that start before the offset. -/
def lineBefore (text : String) (offset : Nat) : List Char :=
  (charsBefore offset text.toList).rtakeWhile (· != '\n')

def isSupplementary (character : Char) : Bool :=
  0x10000 ≤ character.toNat

/-- Line feeds among the bytes before the offset. -/
def feedBytes (text : String) (offset : Nat) : Nat :=
  (text.toUTF8.data.toList.take offset).count 10

/-- Where a text ends when the wide characters take two columns: its line feeds, and what comes
after the last of them. -/
theorem foldl_advance (wide : Char → Bool) (characters : List Char) :
    characters.foldl (Position.advance fun character => if wide character then 2 else 1) ⟨0, 0⟩ =
      ⟨.ofNat (characters.count '\n'),
        .ofNat ((characters.rtakeWhile (· != '\n')).length +
          (characters.rtakeWhile (· != '\n')).countP wide)⟩ := by
  induction characters using List.reverseRecOn with
  | nil => rfl
  | append_singleton before character ih =>
      rw [List.foldl_append, ih, List.foldl_cons, List.foldl_nil, Position.advance,
        List.count_append, List.rtakeWhile_concat]
      by_cases feed : character = '\n'
      · simp [feed, UInt32.ofNat_add]
      · have step : ∀ length others : Nat,
            UInt32.ofNat (length + others) + (if wide character then 2 else 1) =
              UInt32.ofNat (length + 1 + (others + if wide character then 1 else 0)) := by
          intro length others
          split
          · exact (UInt32.ofNat_add _ 2).symm.trans (congrArg _ (by omega))
          · exact (UInt32.ofNat_add _ 1).symm.trans (congrArg _ (by omega))
        simp [feed, step, List.countP_append, List.countP_cons, -UInt32.ofNat_add]

theorem position_with_eq (wide : Char → Bool) (text : String) (offset : Nat) :
    positionWith (fun character => if wide character then 2 else 1) text offset =
      ⟨.ofNat (row text offset),
        .ofNat ((lineBefore text offset).length + (lineBefore text offset).countP wide)⟩ :=
  foldl_advance wide (charsBefore offset text.toList)

theorem position_eq (text : String) (offset : Nat) :
    position text offset = ⟨.ofNat (row text offset), .ofNat (lineBefore text offset).length⟩ := by
  have narrow := position_with_eq (fun _ => false) text offset
  simpa [position] using narrow

theorem position_utf16_eq (text : String) (offset : Nat) :
    positionUtf16 text offset =
      ⟨.ofNat (row text offset),
        .ofNat ((lineBefore text offset).length +
          (lineBefore text offset).countP isSupplementary)⟩ := by
  have units : unitsUtf16 = fun character => if isSupplementary character then 2 else 1 := by
    funext character
    by_cases narrow : character.toNat < 0x10000
    · simp [unitsUtf16, isSupplementary, narrow]
    · simp [unitsUtf16, isSupplementary, narrow, Nat.le_of_not_lt narrow]
  rw [positionUtf16, units, position_with_eq]

theorem to_list_to_utf8 (text : String) :
    text.toUTF8.data.toList = text.toList.flatMap String.utf8EncodeChar := by
  rw [String.toUTF8, ← String.utf8Encode_toList, List.utf8Encode, List.toList_data_toByteArray]

theorem not_mem_utf8_encode_char {character : Char} (other : character ≠ '\n') :
    (10 : UInt8) ∉ String.utf8EncodeChar character := by
  intro member
  have isByte : '\n' ∈ bytesOfChar character := List.mem_map_of_mem member
  by_cases ascii : character.toNat < 0x80
  · rw [bytes_of_char_ascii ascii, List.mem_singleton] at isByte
    exact other isByte.symm
  · exact absurd (wide_of_mem_bytes_of_char (Nat.le_of_not_lt ascii) isByte) (by decide)

/-- The line feeds before an offset, counted in bytes, are those counted in characters. -/
theorem count_take_flat_map (offset : Nat) (characters : List Char) :
    ((characters.flatMap String.utf8EncodeChar).take offset).count 10 =
      (charsBefore offset characters).count '\n' := by
  induction characters generalizing offset with
  | nil => simp [charsBefore]
  | cons character rest ih =>
      rw [List.flatMap_cons, List.take_append, List.count_append, String.length_utf8EncodeChar, ih,
        charsBefore]
      by_cases atStart : offset = 0
      · subst atStart
        cases rest <;> simp [charsBefore]
      · rw [if_neg atStart, List.count_cons, Nat.add_comm]
        by_cases feed : character = '\n'
        · subst feed
          have whole : [(10 : UInt8)].take offset = [10] :=
            List.take_of_length_le (Nat.one_le_iff_ne_zero.mpr atStart)
          exact congrArg (_ + ·) (congrArg (List.count 10) whole)
        · have without : ((String.utf8EncodeChar character).take offset).count 10 = 0 :=
            List.count_eq_zero.mpr fun member =>
              not_mem_utf8_encode_char feed (List.mem_of_mem_take member)
          simp [without, feed]

theorem feed_bytes_eq_row (text : String) (offset : Nat) :
    feedBytes text offset = row text offset := by
  rw [feedBytes, row, to_list_to_utf8, count_take_flat_map]

theorem chars_before_append (before after : List Char) :
    charsBefore (String.ofList before).utf8ByteSize (before ++ after) = before := by
  induction before with
  | nil => cases after <;> simp [charsBefore]
  | cons character rest ih =>
      have pos := character.utf8Size_pos
      rw [String.ofList_cons, String.utf8ByteSize_append, String.utf8ByteSize_singleton,
        List.cons_append, charsBefore, if_neg (by omega), Nat.add_sub_cancel_left, ih]

/-- Two offsets between characters cut the text in three. -/
theorem exists_split_of_lt {text : String} {first second : Nat}
    (firstValid : String.Pos.Raw.IsValid text ⟨first⟩)
    (secondValid : String.Pos.Raw.IsValid text ⟨second⟩) (lt : first < second) :
    ∃ before between after, text = before ++ between ++ after ∧ between ≠ "" ∧
      first = before.utf8ByteSize ∧ second = (before ++ between).utf8ByteSize := by
  obtain ⟨before, rest, isText, isFirst⟩ := String.Pos.Raw.isValid_iff_exists_append.mp firstValid
  obtain ⟨longer, after, alsoText, isSecond⟩ :=
    String.Pos.Raw.isValid_iff_exists_append.mp secondValid
  have firstSize : first = before.utf8ByteSize := congrArg String.Pos.Raw.byteIdx isFirst
  have secondSize : second = longer.utf8ByteSize := congrArg String.Pos.Raw.byteIdx isSecond
  have sameChars : before.toList ++ rest.toList = longer.toList ++ after.toList := by
    rw [← String.toList_append, ← String.toList_append, ← isText, alsoText]
  rcases List.append_eq_append_iff.mp sameChars with ⟨between, isLonger, -⟩ | ⟨extra, isBefore, -⟩
  · have longerText : longer = before ++ String.ofList between := by
      apply String.toList_injective
      rw [isLonger, String.toList_append, String.toList_ofList]
    subst longerText
    refine ⟨before, String.ofList between, after, alsoText, ?_, firstSize, secondSize⟩
    intro empty
    rw [empty, String.append_empty] at secondSize
    omega
  · have beforeText : before = longer ++ String.ofList extra := by
      apply String.toList_injective
      rw [isBefore, String.toList_append, String.toList_ofList]
    rw [beforeText, String.utf8ByteSize_append] at firstSize
    omega

theorem chars_before_of_split (before after : String) :
    charsBefore before.utf8ByteSize (before ++ after).toList = before.toList := by
  have cut := chars_before_append before.toList after.toList
  rwa [String.ofList_toList, ← String.toList_append] at cut

theorem rtake_while_append_of_not_mem (before : List Char) {inside : List Char}
    (absent : '\n' ∉ inside) :
    (before ++ inside).rtakeWhile (· != '\n') = before.rtakeWhile (· != '\n') ++ inside := by
  have stays : ∀ character ∈ inside.reverse, (character != '\n') = true := by
    intro character member
    rw [bne_iff_ne]
    rintro rfl
    exact absent (List.mem_reverse.mp member)
  rw [List.rtakeWhile, List.reverse_append, List.takeWhile_append_of_pos stays,
    List.reverse_append, List.reverse_reverse, List.rtakeWhile]

theorem begins_with_chars_before (offset : Nat) (characters : List Char) :
    charsBefore offset characters <+: characters := by
  induction characters generalizing offset with
  | nil => exact List.prefix_refl _
  | cons character rest ih =>
      unfold charsBefore
      split
      · exact List.nil_prefix
      · exact List.cons_prefix_cons.mpr ⟨rfl, ih _⟩

theorem length_chars_before_le (offset : Nat) (characters : List Char) :
    (charsBefore offset characters).length ≤ offset := by
  induction characters generalizing offset with
  | nil => exact Nat.zero_le offset
  | cons character rest ih =>
      unfold charsBefore
      have pos := character.utf8Size_pos
      split
      · exact Nat.zero_le offset
      · have later := ih (offset - character.utf8Size)
        rw [List.length_cons]
        omega

theorem columns_le_bytes (characters : List Char) :
    characters.length + characters.countP isSupplementary ≤
      (String.ofList characters).utf8ByteSize := by
  induction characters with
  | nil => exact Nat.le_refl _
  | cons character rest ih =>
      have bytes : 1 + (if isSupplementary character then 1 else 0) ≤ character.utf8Size := by
        have pos := character.utf8Size_pos
        split
        · next supplementary =>
            have large : 0x10000 ≤ character.toNat := of_decide_eq_true supplementary
            have value : character.val.toNat = character.toNat := rfl
            unfold Char.utf8Size
            simp only [UInt32.le_iff_toNat_le, value]
            split_ifs with one two three
            · exact absurd (le_trans large one) (by decide)
            · exact absurd (le_trans large two) (by decide)
            · decide
            · decide
        · exact pos
      rw [String.ofList_cons, String.utf8ByteSize_append, String.utf8ByteSize_singleton,
        List.length_cons, List.countP_cons]
      omega

theorem line_before_sublist (text : String) (offset : Nat) :
    (lineBefore text offset).Sublist (charsBefore offset text.toList) :=
  (List.rtakeWhile_suffix _ _).sublist

/-- Positions do not wrap around before the offset does. -/
theorem position_to_nat {text : String} {offset : Nat} (small : offset < UInt32.size) :
    (position text offset).line.toNat = row text offset ∧
      (position text offset).column.toNat = (lineBefore text offset).length := by
  have all := length_chars_before_le offset text.toList
  have feeds : row text offset ≤ _ := List.count_le_length
  have columns := (line_before_sublist text offset).length_le
  rw [position_eq]
  exact ⟨UInt32.toNat_ofNat_of_lt (by omega), UInt32.toNat_ofNat_of_lt (by omega)⟩

theorem row_and_columns_le (text : String) (offset : Nat) :
    row text offset ≤ text.utf8ByteSize ∧
      (lineBefore text offset).length + (lineBefore text offset).countP isSupplementary ≤
        text.utf8ByteSize := by
  have all := (begins_with_chars_before offset text.toList).sublist
  have bytes := columns_le_bytes text.toList
  rw [String.ofList_toList] at bytes
  have line := (line_before_sublist text offset).trans all
  have length := line.length_le
  have wide := line.countP_le (p := isSupplementary)
  have feeds : row text offset ≤ text.toList.length := List.count_le_length.trans all.length_le
  omega

/-- Characters between two offsets take the second further down, or further right on its line. -/
theorem columns_lt_append (wide : Char → Bool) (before : List Char) {between : List Char}
    (some : between ≠ []) :
    before.count '\n' < (before ++ between).count '\n' ∨
      before.count '\n' = (before ++ between).count '\n' ∧
        (before.rtakeWhile (· != '\n')).length + (before.rtakeWhile (· != '\n')).countP wide <
          ((before ++ between).rtakeWhile (· != '\n')).length +
            ((before ++ between).rtakeWhile (· != '\n')).countP wide := by
  rw [List.count_append]
  by_cases broken : '\n' ∈ between
  · have positive := List.count_pos_iff.mpr broken
    exact Or.inl (by omega)
  · have longer := List.length_pos_iff.mpr some
    rw [List.count_eq_zero.mpr broken, rtake_while_append_of_not_mem before broken,
      List.length_append, List.countP_append]
    exact Or.inr ⟨rfl, by omega⟩

namespace Position

theorem before_of_lt {first second firstColumn secondColumn : Nat} (small : second < UInt32.size)
    (smallColumn : secondColumn < UInt32.size)
    (lt : first < second ∨ first = second ∧ firstColumn < secondColumn) :
    Before ⟨.ofNat first, .ofNat firstColumn⟩ ⟨.ofNat second, .ofNat secondColumn⟩ := by
  rcases lt with lower | ⟨rfl, further⟩
  · refine Or.inl ((UInt32.ofNat_lt_iff_lt ?_ ?_).mpr lower)
    · exact lower.trans small
    · exact small
  · refine Or.inr ⟨rfl, (UInt32.ofNat_lt_iff_lt ?_ ?_).mpr further⟩
    · exact further.trans smallColumn
    · exact smallColumn

theorem Before.ne {first second : Position} (before : first.Before second) : first ≠ second := by
  rintro rfl
  rcases before with lower | ⟨-, further⟩
  · exact UInt32.lt_irrefl _ lower
  · exact UInt32.lt_irrefl _ further

end Position

theorem before_position_with {wide : Char → Bool}
    (narrow : ∀ character, wide character = true → isSupplementary character = true)
    {text : String} (small : text.utf8ByteSize < UInt32.size) {first second : Nat}
    (firstValid : String.Pos.Raw.IsValid text ⟨first⟩)
    (secondValid : String.Pos.Raw.IsValid text ⟨second⟩) (lt : first < second) :
    (positionWith (fun character => if wide character then 2 else 1) text first).Before
      (positionWith (fun character => if wide character then 2 else 1) text second) := by
  have bounds := row_and_columns_le text second
  have fewer : (lineBefore text second).countP wide ≤
      (lineBefore text second).countP isSupplementary :=
    List.countP_mono_left fun character _ => narrow character
  rw [position_with_eq, position_with_eq]
  refine Position.before_of_lt (by omega) (by omega) ?_
  obtain ⟨before, between, after, rfl, some, rfl, rfl⟩ :=
    exists_split_of_lt firstValid secondValid lt
  unfold row lineBefore
  rw [chars_before_of_split, String.append_assoc, chars_before_of_split, String.toList_append]
  exact columns_lt_append wide _ (mt String.toList_eq_nil_iff.mp some)

theorem before_position {text : String} (small : text.utf8ByteSize < UInt32.size)
    {first second : Nat} (firstValid : String.Pos.Raw.IsValid text ⟨first⟩)
    (secondValid : String.Pos.Raw.IsValid text ⟨second⟩) (lt : first < second) :
    (position text first).Before (position text second) ∧
      (positionUtf16 text first).Before (positionUtf16 text second) := by
  have characters := @before_position_with (fun _ => false) (by simp) text small first second
    firstValid secondValid lt
  have units := @before_position_with isSupplementary (fun _ => id) text small first second
    firstValid secondValid lt
  rw [position_with_eq, position_with_eq] at units
  rw [position_utf16_eq, position_utf16_eq]
  exact ⟨by simpa [position] using characters, units⟩

/-- Positions in characters and in UTF-16 units are on the same line, which is the number of line
feeds among the bytes before the offset, also for an offset inside a character or behind the text.
In UTF-16 the column counts each character outside the Basic Multilingual Plane once more. All this
is modulo 2^32, and exact in texts of fewer bytes. In these, offsets between characters keep their
order, so that different ones have different positions, and the editor's range of a diagnostic with
a text is not empty. -/
theorem position_faithful (text : String) :
    (∀ offset,
      (position text offset).line = .ofNat (feedBytes text offset) ∧
      (positionUtf16 text offset).line = .ofNat (feedBytes text offset) ∧
      row text offset = feedBytes text offset ∧
      (position text offset).column = .ofNat (lineBefore text offset).length ∧
      (positionUtf16 text offset).column =
        (position text offset).column +
          .ofNat ((lineBefore text offset).countP isSupplementary)) ∧
    (text.utf8ByteSize < UInt32.size →
      (∀ offset,
        (position text offset).line.toNat = feedBytes text offset ∧
        (positionUtf16 text offset).line.toNat = feedBytes text offset ∧
        (position text offset).column.toNat = (lineBefore text offset).length ∧
        (positionUtf16 text offset).column.toNat =
          (position text offset).column.toNat +
            (lineBefore text offset).countP isSupplementary) ∧
      (∀ first second, String.Pos.Raw.IsValid text ⟨first⟩ →
        String.Pos.Raw.IsValid text ⟨second⟩ → first < second →
        (position text first).Before (position text second) ∧
          (positionUtf16 text first).Before (positionUtf16 text second)) ∧
      (∀ first second, String.Pos.Raw.IsValid text ⟨first⟩ →
        String.Pos.Raw.IsValid text ⟨second⟩ → first ≠ second →
        position text first ≠ position text second ∧
          positionUtf16 text first ≠ positionUtf16 text second) ∧
      ∀ diagnostic : Verdict.Diagnostic,
        String.Pos.Raw.IsValid text ⟨diagnostic.location.startByte⟩ →
        String.Pos.Raw.IsValid text ⟨diagnostic.location.endByte⟩ →
        diagnostic.location.startByte < diagnostic.location.endByte →
        (Report.EditorDiagnostic.ofDiagnostic text diagnostic).start.Before
          (Report.EditorDiagnostic.ofDiagnostic text diagnostic).stop) := by
  constructor
  · intro offset
    rw [position_eq, position_utf16_eq, feed_bytes_eq_row, UInt32.ofNat_add]
    exact ⟨rfl, rfl, rfl, rfl, rfl⟩
  intro small
  have ordered := @before_position text small
  refine ⟨?_, @ordered, ?_, ?_⟩
  · intro offset
    have bounds := row_and_columns_le text offset
    have exactly : ∀ count, count ≤ text.utf8ByteSize → (UInt32.ofNat count).toNat = count :=
      fun count le => UInt32.toNat_ofNat_of_lt (Nat.lt_of_le_of_lt le small)
    rw [position_eq, position_utf16_eq, feed_bytes_eq_row]
    dsimp only
    rw [exactly _ bounds.1, exactly _ bounds.2, exactly _ (by omega)]
    exact ⟨rfl, rfl, rfl, rfl⟩
  · intro first second firstValid secondValid differ
    rcases Nat.lt_or_gt_of_ne differ with lt | gt
    · have before := ordered firstValid secondValid lt
      exact ⟨before.1.ne, before.2.ne⟩
    · have before := ordered secondValid firstValid gt
      exact ⟨before.1.ne.symm, before.2.ne.symm⟩
  · intro diagnostic startValid stopValid lt
    exact (ordered startValid stopValid lt).2

/-- Around a character of four bytes and two UTF-16 units. -/
theorem position_faithful_clef :
    String.Pos.Raw.IsValid "é𝄞\nx" ⟨2⟩ ∧ String.Pos.Raw.IsValid "é𝄞\nx" ⟨6⟩ ∧
      (positionUtf16 "é𝄞\nx" 6).column.toNat = (position "é𝄞\nx" 6).column.toNat + 1 ∧
      (position "é𝄞\nx" 2).Before (position "é𝄞\nx" 6) ∧
      (positionUtf16 "é𝄞\nx" 2).Before (positionUtf16 "é𝄞\nx" 6) := by
  have firstValid : String.Pos.Raw.IsValid "é𝄞\nx" ⟨2⟩ :=
    String.Pos.Raw.isValid_iff_exists_append.mpr ⟨"é", "𝄞\nx", by decide, by decide⟩
  have secondValid : String.Pos.Raw.IsValid "é𝄞\nx" ⟨6⟩ :=
    String.Pos.Raw.isValid_iff_exists_append.mpr ⟨"é𝄞", "\nx", by decide, by decide⟩
  have wide : (lineBefore "é𝄞\nx" 6).countP isSupplementary = 1 := by decide
  obtain ⟨columns, order, -⟩ := (position_faithful "é𝄞\nx").2 (by decide)
  exact ⟨firstValid, secondValid, wide ▸ (columns 6).2.2.2,
    order 2 6 firstValid secondValid (by decide)⟩

def longLine (count : Nat) : String :=
  String.ofList (List.replicate count 'a')

theorem size_long_line (count : Nat) : (longLine count).utf8ByteSize = count := by
  unfold longLine
  induction count with
  | zero => rfl
  | succ count ih =>
      rw [List.replicate_succ, String.ofList_cons, String.utf8ByteSize_append,
        String.utf8ByteSize_singleton, ih, Nat.add_comm]
      rfl

theorem position_long_line (count : Nat) :
    position (longLine count) count = ⟨0, .ofNat count⟩ ∧
      positionUtf16 (longLine count) count = ⟨0, .ofNat count⟩ := by
  have all : charsBefore count (longLine count).toList = List.replicate count 'a' := by
    have cut := chars_before_of_split (longLine count) ""
    rw [String.append_empty, size_long_line] at cut
    rw [cut, longLine, String.toList_ofList]
  have line : lineBefore (longLine count) count = List.replicate count 'a' := by
    rw [lineBefore, all, List.rtakeWhile, List.reverse_replicate, List.takeWhile_replicate]
    simp
  have feeds : row (longLine count) count = 0 := by
    rw [row, all, List.count_replicate]
    rfl
  have narrow : (List.replicate count 'a').countP isSupplementary = 0 := by
    rw [List.countP_replicate]
    rfl
  rw [position_eq, position_utf16_eq, feeds, line, narrow, List.length_replicate]
  exact ⟨rfl, rfl⟩

/-- On a line of 2^32 columns the first and the last position are the same. -/
theorem position_wraps_around :
    ∃ text first second, String.Pos.Raw.IsValid text ⟨first⟩ ∧
      String.Pos.Raw.IsValid text ⟨second⟩ ∧ first < second ∧ second ≤ text.utf8ByteSize ∧
      position text first = position text second ∧
      positionUtf16 text first = positionUtf16 text second := by
  obtain ⟨characters, units⟩ := position_long_line UInt32.size
  have size := size_long_line UInt32.size
  generalize longLine UInt32.size = text at *
  have start : position text 0 = ⟨0, 0⟩ ∧ positionUtf16 text 0 = ⟨0, 0⟩ := by
    have nothing : charsBefore 0 text.toList = [] := by cases text.toList <;> rfl
    rw [position, positionUtf16, positionWith, positionWith, nothing]
    exact ⟨rfl, rfl⟩
  have wraps : UInt32.ofNat UInt32.size = 0 := by decide
  rw [wraps] at characters units
  refine ⟨text, 0, UInt32.size, ?_, ?_, by decide, size.ge, start.1.trans characters.symm,
    start.2.trans units.symm⟩
  · exact String.Pos.Raw.isValid_iff_exists_append.mpr ⟨"", text, by simp, rfl⟩
  · refine String.Pos.Raw.isValid_iff_exists_append.mpr ⟨text, "", by simp, ?_⟩
    rw [← size]
    rfl

end ReleaseAudit.Text
