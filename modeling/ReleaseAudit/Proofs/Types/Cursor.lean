import Mathlib.Data.List.DropRight
import ReleaseAudit.Proofs.Types.Bytes

/-!
# Written types, read at positions

The same reader over the bytes of a text and a position in them. A byte that is
asked for outside the text ends the reading with no answer at all. This never
happens: from every position in the text the reader goes on to another one, and
its answer is the one that reading the characters gives.
-/

namespace ReleaseAudit.Types.TypeRef

set_option autoImplicit false

/-- Nothing at all when a byte outside the text was asked for. Otherwise a value and the position
behind it, if the text is accepted. -/
abbrev Reading (α : Type) := Option (Option (α × Nat))

namespace Reading

variable {α β : Type}

def accept (value : α) (pos : Nat) : Reading α := some (some (value, pos))

def refuse : Reading α := some none

def andThen (reading : Reading α) (next : α → Nat → Reading β) : Reading β :=
  match reading with
  | none => none
  | some none => refuse
  | some (some (value, pos)) => next value pos

theorem accept_and_then (value : α) (pos : Nat) (next : α → Nat → Reading β) :
    (accept value pos).andThen next = next value pos :=
  rfl

theorem and_then_eq_accept_iff {reading : Reading α} {next : α → Nat → Reading β} {value : β}
    {stop : Nat} :
    reading.andThen next = accept value stop ↔
      ∃ found pos, reading = accept found pos ∧ next found pos = accept value stop := by
  constructor
  · intro accepted
    unfold andThen at accepted
    split at accepted
    · cases accepted
    · cases accepted
    · next found pos => exact ⟨found, pos, rfl, accepted⟩
  · rintro ⟨found, pos, rfl, accepted⟩
    exact accepted

end Reading

section Positions

variable (source : List UInt8)

def behind (pos : Nat) : List Char :=
  (source.drop pos).map Char.ofUInt8

def skipGapAt (pos : Nat) : Reading Unit :=
  if pos < source.length then
    match source[pos]? with
    | none => none
    | some byte => if isGap (.ofUInt8 byte) then skipGapAt (pos + 1) else .accept () pos
  else .accept () pos
termination_by source.length - pos

def eatAt (mark : Char) (pos : Nat) : Reading Bool :=
  (skipGapAt source pos).andThen fun _ pos =>
    if source[pos]?.map Char.ofUInt8 = some mark then .accept true (pos + 1)
    else .accept false pos

/-- The bytes from a position on can be asked for up to the end of the text, not behind it. -/
def eatWordAt (word : String) (pos : Nat) : Reading Bool :=
  (skipGapAt source pos).andThen fun _ pos =>
    if pos ≤ source.length then
      if (Text.afterHead? word.toList (behind source pos)).isSome then
        .accept true (pos + word.utf8ByteSize)
      else .accept false pos
    else none

def nameEnd (pos : Nat) : Nat :=
  match found : source[pos]? with
  | some byte => if isNameChar (.ofUInt8 byte) then nameEnd (pos + 1) else pos
  | none => pos
termination_by source.length - pos
decreasing_by
  have inside := (List.getElem?_eq_some_iff.mp found).1
  omega

def readNameAt (pos : Nat) : Reading String :=
  (skipGapAt source pos).andThen fun _ pos =>
    let start := if source[pos]?.map Char.ofUInt8 = some '@' then pos + 1 else pos
    let stop := nameEnd source start
    if start = stop then .refuse
    else
      match source[start]? with
      | none => none
      | some first =>
          if (Char.ofUInt8 first).isDigit then .refuse
          else if start ≤ stop ∧ stop ≤ source.length then
            some ((String.fromUTF8? ((source.drop start).take (stop - start)).toByteArray).map
              fun name => (name, stop))
          else none

theorem skip_gap_at_le {pos next : Nat} (skipped : skipGapAt source pos = .accept () next) :
    pos ≤ next := by
  fun_induction skipGapAt source pos with
  | case1 => cases skipped
  | case2 pos inside byte isByte gap ih =>
      have := ih skipped
      omega
  | case3 | case4 =>
      cases skipped
      exact Nat.le_refl _

theorem eat_at_bounds {mark : Char} {pos next : Nat} {found : Bool}
    (eaten : eatAt source mark pos = .accept found next) :
    pos ≤ next ∧ (found = true → pos < next ∧ next ≤ source.length) := by
  obtain ⟨_, start, skipped, eaten⟩ := Reading.and_then_eq_accept_iff.mp eaten
  have further := skip_gap_at_le source skipped
  split at eaten
  · next isMark =>
      cases eaten
      obtain ⟨byte, isByte, -⟩ := Option.map_eq_some_iff.mp isMark
      have inside := (List.getElem?_eq_some_iff.mp isByte).1
      exact ⟨by omega, fun _ => ⟨by omega, inside⟩⟩
  · cases eaten
    exact ⟨further, nofun⟩

/-- Goes on to the closing bracket, byte by byte. -/
def closeBracketAt (pos : Nat) : Reading Unit :=
  match eaten : eatAt source ']' pos with
  | none => none
  | some none => .refuse
  | some (some (true, next)) => .accept () next
  | some (some (false, next)) => if next < source.length then closeBracketAt (next + 1) else .refuse
termination_by source.length - pos
decreasing_by
  have further := (eat_at_bounds source eaten).1
  omega

theorem close_bracket_at_bounds {pos next : Nat}
    (closed : closeBracketAt source pos = .accept () next) :
    pos < next ∧ next ≤ source.length := by
  fun_induction closeBracketAt source pos with
  | case1 => cases closed
  | case2 => cases closed
  | case3 pos stop eaten =>
      cases closed
      exact (eat_at_bounds source eaten).2 rfl
  | case4 pos stop eaten inside ih =>
      have further := (eat_at_bounds source eaten).1
      have later := ih closed
      omega
  | case5 => cases closed

def readSuffixAt (pos : Nat) : Reading (Option Bool) :=
  (eatAt source '?' pos).andThen fun marked pos =>
    if marked then .accept (some false) pos
    else
      (eatAt source '[' pos).andThen fun opened pos =>
        if opened then (closeBracketAt source pos).andThen fun _ pos => .accept (some true) pos
        else .accept none pos

theorem read_suffix_at_bounds {pos next : Nat} {bracket : Bool}
    (found : readSuffixAt source pos = .accept (some bracket) next) :
    pos < next ∧ next ≤ source.length := by
  obtain ⟨marked, start, eaten, found⟩ := Reading.and_then_eq_accept_iff.mp found
  have first := eat_at_bounds source eaten
  split at found
  · next isMarked =>
      cases found
      exact first.2 isMarked
  · obtain ⟨opened, inner, eaten, found⟩ := Reading.and_then_eq_accept_iff.mp found
    have second := (eat_at_bounds source eaten).1
    split at found
    · obtain ⟨_, stop, closed, found⟩ := Reading.and_then_eq_accept_iff.mp found
      cases found
      have third := close_bracket_at_bounds source closed
      omega
    · cases found

set_option linter.unusedVariables false in
def readSuffixesAt (array : Bool) (pos : Nat) : Reading Bool :=
  match found : readSuffixAt source pos with
  | none => none
  | some none => .refuse
  | some (some (some bracket, next)) => readSuffixesAt (array || bracket) next
  | some (some (none, next)) => .accept array next
termination_by source.length - pos
decreasing_by
  have further := read_suffix_at_bounds source found
  omega

def eatSeparatorAt (pos : Nat) : Reading Bool :=
  (eatWordAt source "::" pos).andThen fun found pos =>
    if found then .accept true pos else eatAt source '.' pos

mutual

def readTypeAt : (steps pos : Nat) → Reading TypeRef
  | 0, _ => .refuse
  | steps + 1, pos =>
      (eatWordAt source "global::" pos).andThen fun _ pos =>
        (readSegmentsAt steps pos).andThen fun found pos =>
          (readSuffixesAt source false pos).andThen fun array pos =>
            .accept ⟨String.intercalate "." found.1, found.2.getD [], array⟩ pos

def readSegmentsAt : (steps pos : Nat) → Reading (List String × Option (List TypeRef))
  | 0, _ => .refuse
  | steps + 1, pos =>
      (readNameAt source pos).andThen fun name pos =>
        ((eatAt source '<' pos).andThen fun opened pos =>
          if opened then
            (readArgumentsAt steps pos).andThen fun args pos => .accept (some args) pos
          else .accept none pos).andThen fun own pos =>
            (eatSeparatorAt source pos).andThen fun more pos =>
              if more then
                (readSegmentsAt steps pos).andThen fun later pos =>
                  .accept (name :: later.1, later.2.or own) pos
              else .accept ([name], own) pos

def readArgumentsAt : (steps pos : Nat) → Reading (List TypeRef)
  | 0, _ => .refuse
  | steps + 1, pos =>
      (readTypeAt steps pos).andThen fun first pos =>
        (eatAt source ',' pos).andThen fun more pos =>
          if more then
            (readArgumentsAt steps pos).andThen fun others pos => .accept (first :: others) pos
          else
            (eatAt source '>' pos).andThen fun closed pos =>
              if closed then .accept [first] pos else .refuse

end

/-- Reads bytes that hold one written type and nothing else. -/
def parseAt (steps : Nat) : Option (Option TypeRef) :=
  ((readTypeAt source steps 0).andThen fun written pos =>
    (skipGapAt source pos).andThen fun _ pos =>
      if pos = source.length then .accept written pos else .refuse).map (Option.map Prod.fst)

variable {source}

theorem behind_of_lt {pos : Nat} (inside : pos < source.length) :
    ∃ byte, source[pos]? = some byte ∧
      behind source pos = Char.ofUInt8 byte :: behind source (pos + 1) := by
  refine ⟨source[pos], List.getElem?_eq_getElem inside, ?_⟩
  rw [behind, List.drop_eq_getElem_cons inside, List.map_cons]
  rfl

theorem behind_of_not_lt {pos : Nat} (outside : ¬pos < source.length) : behind source pos = [] := by
  rw [behind, List.drop_eq_nil_of_le (by omega)]
  rfl

theorem behind_add (pos count : Nat) :
    behind source (pos + count) = (behind source pos).drop count := by
  rw [behind, behind, ← List.map_drop, List.drop_drop]

theorem skip_gap_at_eq {pos : Nat} (inside : pos ≤ source.length) :
    ∃ next, skipGapAt source pos = .accept () next ∧ next ≤ source.length ∧
      behind source next = skipGap (behind source pos) := by
  fun_induction skipGapAt source pos with
  | case1 pos within missing =>
      obtain ⟨byte, isByte, -⟩ := behind_of_lt within
      rw [missing] at isByte
      cases isByte
  | case2 pos within byte isByte gap ih =>
      obtain ⟨next, skipped, stays, spells⟩ := ih within
      obtain ⟨other, isOther, split⟩ := behind_of_lt within
      cases isByte.symm.trans isOther
      refine ⟨next, skipped, stays, ?_⟩
      rw [spells, split, skipGap, skipGap, List.dropWhile_cons_of_pos gap]
  | case3 pos within byte isByte notGap =>
      obtain ⟨other, isOther, split⟩ := behind_of_lt within
      cases isByte.symm.trans isOther
      refine ⟨pos, rfl, inside, ?_⟩
      rw [split, skipGap, List.dropWhile_cons_of_neg notGap]
  | case4 pos outside =>
      refine ⟨pos, rfl, inside, ?_⟩
      rw [behind_of_not_lt outside]
      rfl

theorem head_behind (pos : Nat) :
    (behind source pos).head? = source[pos]?.map Char.ofUInt8 := by
  rw [behind, List.head?_map, List.head?_drop]

theorem eat_at_cases (mark : Char) {pos : Nat} (inside : pos ≤ source.length) :
    (∃ next, eatAt source mark pos = .accept true next ∧ next ≤ source.length ∧
      eat? mark (behind source pos) = some (behind source next)) ∨
    ∃ next, eatAt source mark pos = .accept false next ∧ next ≤ source.length ∧
      eat? mark (behind source pos) = none ∧
      behind source next = skipGap (behind source pos) := by
  obtain ⟨start, skipped, stays, spells⟩ := skip_gap_at_eq inside
  unfold eatAt eat?
  rw [skipped, ← spells]
  simp only [Reading.andThen, Reading.accept, ← head_behind]
  by_cases within : start < source.length
  · obtain ⟨byte, -, split⟩ := behind_of_lt within
    rw [split]
    by_cases same : Char.ofUInt8 byte = mark
    · exact Or.inl ⟨start + 1, by simp [same], within, by simp [same]⟩
    · exact Or.inr ⟨start, by simp [same], stays, by simp [same], split⟩
  · rw [behind_of_not_lt within]
    exact Or.inr ⟨start, by simp, stays, rfl, behind_of_not_lt within⟩

theorem length_behind (pos : Nat) : (behind source pos).length = source.length - pos := by
  rw [behind, List.length_map, List.length_drop]

theorem eat_word_at_cases {word : String} (size : word.utf8ByteSize = word.toList.length)
    {pos : Nat} (inside : pos ≤ source.length) :
    (∃ next, eatWordAt source word pos = .accept true next ∧ next ≤ source.length ∧
      eatWord? word (behind source pos) = some (behind source next)) ∨
    ∃ next, eatWordAt source word pos = .accept false next ∧ next ≤ source.length ∧
      eatWord? word (behind source pos) = none ∧
      behind source next = skipGap (behind source pos) := by
  obtain ⟨start, skipped, stays, spells⟩ := skip_gap_at_eq inside
  unfold eatWordAt eatWord?
  rw [skipped, ← spells]
  simp only [Reading.andThen, Reading.accept, if_pos stays, size]
  cases found : Text.afterHead? word.toList (behind source start) with
  | none => exact Or.inr ⟨start, rfl, stays, rfl, rfl⟩
  | some rest =>
      have split := after_head_eq_some_iff.mp found
      have lengths := congrArg List.length split
      rw [length_behind, List.length_append] at lengths
      refine Or.inl ⟨start + word.toList.length, rfl, by omega, ?_⟩
      rw [behind_add, split, List.drop_left]

theorem name_end_eq (pos : Nat) :
    nameEnd source pos = pos + ((behind source pos).takeWhile isNameChar).length := by
  fun_induction nameEnd source pos with
  | case1 pos byte isByte named ih =>
      obtain ⟨other, isOther, split⟩ := behind_of_lt (List.getElem?_eq_some_iff.mp isByte).1
      cases isByte.symm.trans isOther
      rw [ih, split, List.takeWhile_cons_of_pos named, List.length_cons]
      omega
  | case2 pos byte isByte notNamed =>
      obtain ⟨other, isOther, split⟩ := behind_of_lt (List.getElem?_eq_some_iff.mp isByte).1
      cases isByte.symm.trans isOther
      rw [split, List.takeWhile_cons_of_neg notNamed]
      rfl
  | case3 pos missing =>
      rw [behind_of_not_lt (Nat.not_lt.mpr (List.getElem?_eq_none_iff.mp missing))]
      rfl

/-- Where a name starts: behind the mark that may stand before it. -/
theorem name_start_eq {pos : Nat} (inside : pos ≤ source.length) :
    ∃ start, (if source[pos]?.map Char.ofUInt8 = some '@' then pos + 1 else pos) = start ∧
      start ≤ source.length ∧
      behind source start =
        (Text.afterHead? ['@'] (behind source pos)).getD (behind source pos) := by
  by_cases within : pos < source.length
  · obtain ⟨byte, isByte, split⟩ := behind_of_lt within
    rw [isByte, split, Option.map_some]
    by_cases marked : Char.ofUInt8 byte = '@'
    · exact ⟨pos + 1, by simp [marked], within, by simp [marked, Text.afterHead?]⟩
    · refine ⟨pos, by simp [marked], inside, ?_⟩
      simp [Ne.symm marked, Text.afterHead?, split]
  · have missing : source[pos]? = none := List.getElem?_eq_none_iff.mpr (Nat.not_lt.mp within)
    rw [missing, behind_of_not_lt within]
    exact ⟨pos, rfl, inside, behind_of_not_lt within⟩

theorem read_name_at_eq {pos : Nat} (inside : pos ≤ source.length) :
    match readName? (behind source pos) with
    | none => readNameAt source pos = .refuse
    | some (name, rest) =>
        ∃ (next : Nat) (bytes : List UInt8), next ≤ source.length ∧ behind source next = rest ∧
          bytes.map Char.ofUInt8 = name ∧
          readNameAt source pos =
            some ((String.fromUTF8? bytes.toByteArray).map fun name => (name, next)) := by
  obtain ⟨pos', skipped, stays, spells⟩ := skip_gap_at_eq inside
  obtain ⟨start, isStart, startInside, startSpells⟩ := name_start_eq stays
  have stop := @name_end_eq source start
  have parts := List.takeWhile_append_dropWhile (p := isNameChar) (l := behind source start)
  unfold readNameAt readName?
  rw [skipped, ← spells]
  simp only [Reading.andThen, Reading.accept, isStart, ← startSpells]
  generalize (behind source start).takeWhile isNameChar = name at *
  generalize (behind source start).dropWhile isNameChar = rest at *
  cases name with
  | nil =>
      rw [List.length_nil, Nat.add_zero] at stop
      rw [stop, if_pos rfl]
  | cons first others =>
      have lengths := congrArg List.length parts
      rw [length_behind, List.length_append] at lengths
      rw [List.length_cons] at stop lengths
      obtain ⟨byte, isByte, split⟩ := @behind_of_lt source start (by omega)
      have isFirst : Char.ofUInt8 byte = first := by
        rw [split] at parts
        exact (List.cons.inj parts).1.symm
      rw [if_neg (by omega), isByte]
      simp only [isFirst]
      by_cases digit : first.isDigit = true
      · simp only [digit, if_true]
      · simp only [digit, if_false, Bool.false_eq_true]
        refine ⟨nameEnd source start, (source.drop start).take (nameEnd source start - start),
          by omega, ?_, ?_, ?_⟩
        · rw [stop, behind_add, ← parts]
          exact List.drop_left
        · have taken : ((source.drop start).take (nameEnd source start - start)).map
              Char.ofUInt8 = (behind source start).take (nameEnd source start - start) :=
            List.map_take
          rw [taken, ← parts, stop, Nat.add_sub_cancel_left]
          exact @List.take_left _ (first :: others) rest
        · rw [if_pos (by omega)]

theorem skip_gap_skip_gap (characters : List Char) :
    skipGap (skipGap characters) = skipGap characters :=
  List.dropWhile_idempotent isGap characters

section Congruence

variable {characters others : List Char} (same : skipGap characters = skipGap others)

include same

theorem eat_congr (mark : Char) : eat? mark characters = eat? mark others := by
  unfold eat?
  rw [same]

theorem eat_word_congr (word : String) : eatWord? word characters = eatWord? word others := by
  unfold eatWord?
  rw [same]

theorem read_name_congr : readName? characters = readName? others := by
  unfold readName?
  rw [same]

end Congruence

theorem read_suffixes_skip_gap (inside array : Bool) (characters : List Char) :
    readSuffixes? inside array (skipGap characters) = readSuffixes? inside array characters := by
  induction characters with
  | nil => rfl
  | cons character rest ih =>
      by_cases gap : isGap character = true
      · have notBracket : character ≠ ']' := by
          rintro rfl
          cases gap
        rw [skipGap, List.dropWhile_cons_of_pos gap, ← skipGap, readSuffixes?]
        cases inside <;> simpa [gap, notBracket] using ih
      · rw [skipGap, List.dropWhile_cons_of_neg gap]

theorem not_gap_of_skip_gap {characters rest : List Char} {character : Char}
    (found : skipGap characters = character :: rest) : isGap character = false := by
  have stopped := List.head?_dropWhile_not isGap characters
  rw [← skipGap, found] at stopped
  exact stopped

/-- Inside brackets everything is passed over up to the closing one. -/
theorem read_inside_eq (array : Bool) (characters : List Char) :
    readSuffixes? true array characters =
      match eat? ']' characters with
      | some rest => readSuffixes? false true rest
      | none =>
          match skipGap characters with
          | _ :: rest => readSuffixes? true array rest
          | [] => none := by
  rw [← read_suffixes_skip_gap]
  unfold eat?
  cases skipGap characters with
  | nil => rfl
  | cons character rest =>
      rw [readSuffixes?]
      by_cases bracket : character = ']' <;> simp [bracket]

theorem read_suffixes_eq (array : Bool) (characters : List Char) :
    readSuffixes? false array characters =
      match eat? '?' characters with
      | some rest => readSuffixes? false array rest
      | none =>
          match eat? '[' characters with
          | some rest => readSuffixes? true array rest
          | none => some (array, skipGap characters) := by
  rw [← read_suffixes_skip_gap]
  unfold eat?
  cases found : skipGap characters with
  | nil => rfl
  | cons character rest =>
      have notGap := not_gap_of_skip_gap found
      rw [readSuffixes?]
      by_cases mark : character = '?'
      · simp [mark]
      · by_cases bracket : character = '['
        · subst bracket
          simp [notGap]
        · simp [mark, bracket, notGap]

theorem close_bracket_at_cases {pos : Nat} (inside : pos ≤ source.length) :
    (∃ next, closeBracketAt source pos = .accept () next ∧ next ≤ source.length ∧
      ∀ array, readSuffixes? true array (behind source pos) =
        readSuffixes? false true (behind source next)) ∨
    closeBracketAt source pos = .refuse ∧
      ∀ array, readSuffixes? true array (behind source pos) = none := by
  fun_induction closeBracketAt source pos with
  | case1 pos eaten | case2 pos eaten =>
      rcases eat_at_cases ']' inside with ⟨next, answer, -⟩ | ⟨next, answer, -⟩ <;>
        cases eaten.symm.trans answer
  | case3 pos stop eaten =>
      rcases eat_at_cases ']' inside with ⟨next, answer, stays, found⟩ | ⟨next, answer, -⟩
      · cases eaten.symm.trans answer
        refine Or.inl ⟨stop, rfl, stays, fun array => ?_⟩
        rw [read_inside_eq, found]
      · cases eaten.symm.trans answer
  | case4 pos stop eaten within ih =>
      rcases eat_at_cases ']' inside with ⟨next, answer, -⟩ | ⟨next, answer, stays, missed, skipped⟩
      · cases eaten.symm.trans answer
      · cases eaten.symm.trans answer
        obtain ⟨byte, -, split⟩ := behind_of_lt within
        have passes : ∀ array, readSuffixes? true array (behind source pos) =
            readSuffixes? true array (behind source (stop + 1)) := by
          intro array
          rw [read_inside_eq, missed, ← skipped, split]
        simp only [passes]
        exact ih within
  | case5 pos stop eaten outside =>
      rcases eat_at_cases ']' inside with ⟨next, answer, -⟩ | ⟨next, answer, stays, missed, skipped⟩
      · cases eaten.symm.trans answer
      · cases eaten.symm.trans answer
        refine Or.inr ⟨rfl, fun array => ?_⟩
        rw [read_inside_eq, missed, ← skipped, behind_of_not_lt outside]

theorem read_suffix_at_cases {pos : Nat} (inside : pos ≤ source.length) :
    (∃ bracket next, readSuffixAt source pos = .accept (some bracket) next ∧
      next ≤ source.length ∧
      ∀ array, readSuffixes? false array (behind source pos) =
        readSuffixes? false (array || bracket) (behind source next)) ∨
    (∃ next, readSuffixAt source pos = .accept none next ∧ next ≤ source.length ∧
      ∀ array, readSuffixes? false array (behind source pos) =
        some (array, behind source next)) ∨
    readSuffixAt source pos = .refuse ∧
      ∀ array, readSuffixes? false array (behind source pos) = none := by
  have read := fun array => read_suffixes_eq array (behind source pos)
  unfold readSuffixAt
  rcases eat_at_cases '?' inside with
    ⟨next, marked, stays, found⟩ | ⟨next, marked, stays, missed, skipped⟩
  · simp only [found] at read
    refine Or.inl ⟨false, next, by rw [marked]; rfl, stays, fun array => ?_⟩
    rw [read, Bool.or_false]
  rw [marked]
  have afterGap : skipGap (behind source pos) = skipGap (behind source next) := by
    rw [skipped, skip_gap_skip_gap]
  simp only [missed, eat_congr afterGap '['] at read
  rcases eat_at_cases '[' stays with
    ⟨inner, opened, within, found⟩ | ⟨stop, opened, within, missed, stops⟩
  · simp only [found] at read
    rcases close_bracket_at_cases within with ⟨stop, closed, ends, goesOn⟩ | ⟨closed, refused⟩
    · refine Or.inl ⟨true, stop, ?_, ends, fun array => ?_⟩
      · simp [Reading.andThen, Reading.accept, opened, closed]
      · rw [read, goesOn, Bool.or_true]
    · refine Or.inr (Or.inr ⟨?_, fun array => ?_⟩)
      · simp [Reading.andThen, Reading.accept, Reading.refuse, opened, closed]
      · rw [read, refused]
  · simp only [missed] at read
    refine Or.inr (Or.inl ⟨stop, ?_, within, fun array => ?_⟩)
    · simp [Reading.andThen, Reading.accept, opened]
    · rw [read, stops, skipped, skip_gap_skip_gap]

theorem read_suffixes_at_eq (array : Bool) {pos : Nat} (inside : pos ≤ source.length) :
    match readSuffixes? false array (behind source pos) with
    | none => readSuffixesAt source array pos = .refuse
    | some (closed, rest) =>
        ∃ next, readSuffixesAt source array pos = .accept closed next ∧ next ≤ source.length ∧
          behind source next = rest := by
  fun_induction readSuffixesAt source array pos with
  | case1 array pos found =>
      rcases read_suffix_at_cases inside with
        ⟨_, _, answer, -⟩ | ⟨_, answer, -⟩ | ⟨answer, -⟩ <;> cases found.symm.trans answer
  | case2 array pos found =>
      rcases read_suffix_at_cases inside with
        ⟨_, _, answer, -⟩ | ⟨_, answer, -⟩ | ⟨answer, refused⟩
      · cases found.symm.trans answer
      · cases found.symm.trans answer
      · rw [refused]
  | case3 array pos bracket next found ih =>
      rcases read_suffix_at_cases inside with
        ⟨_, _, answer, stays, goesOn⟩ | ⟨_, answer, -⟩ | ⟨answer, -⟩
      · cases found.symm.trans answer
        rw [goesOn]
        exact ih stays
      · cases found.symm.trans answer
      · cases found.symm.trans answer
  | case4 array pos next found =>
      rcases read_suffix_at_cases inside with
        ⟨_, _, answer, -⟩ | ⟨_, answer, stays, ends⟩ | ⟨answer, -⟩
      · cases found.symm.trans answer
      · cases found.symm.trans answer
        rw [ends]
        exact ⟨next, rfl, stays, rfl⟩
      · cases found.symm.trans answer

theorem of_uint8_injective {first second : UInt8}
    (same : Char.ofUInt8 first = Char.ofUInt8 second) : first = second := by
  have codes := congrArg Char.toNat same
  rw [to_nat_of_uint8, to_nat_of_uint8] at codes
  exact UInt8.toNat_inj.mp codes

theorem from_utf8_of_bytes {bytes : List UInt8} {name : List Char}
    (isName : bytes.map Char.ofUInt8 = bytesOfChars name) :
    String.fromUTF8? bytes.toByteArray = some (String.ofList name) := by
  have encoded : bytes.map Char.ofUInt8 =
      (String.ofList name).toUTF8.data.toList.map Char.ofUInt8 := by
    rw [isName, ← bytesOf, bytes_of_eq, String.toList_ofList]
  have same : bytes = (String.ofList name).toUTF8.data.toList :=
    List.map_injective_iff.mpr (fun _ _ => of_uint8_injective) encoded
  have whole : bytes.toByteArray = (String.ofList name).toByteArray := by
    rw [same, String.toUTF8_eq_toByteArray]
    apply ByteArray.ext
    rw [List.data_toByteArray, Array.toArray_toList]
  unfold String.fromUTF8?
  rw [whole, dif_pos (String.ofList name).isValidUTF8]
  rfl

/-- The position is in the text, and what follows it there is what is left to read, up to a gap. -/
structure At (source : List UInt8) (pos : Nat) (rest : List Char) : Prop where
  inside : pos ≤ source.length
  spells : skipGap (behind source pos) = skipGap (bytesOfChars rest)

/-- Reading at positions gives what reading characters gives, and never leaves the text. -/
def Follows {α : Type} (source : List UInt8) (reading : Reading α)
    (read : Option (α × List Char)) : Prop :=
  match read with
  | some (value, rest) => ∃ pos, reading = .accept value pos ∧ At source pos rest
  | none => reading = .refuse

theorem Follows.and_then {α β : Type} {reading : Reading α} {read : Option (α × List Char)}
    {next : α → Nat → Reading β} {nextRead : α × List Char → Option (β × List Char)}
    (follows : Follows source reading read)
    (goesOn : ∀ value pos rest, At source pos rest →
      Follows source (next value pos) (nextRead (value, rest))) :
    Follows source (reading.andThen next) (read.bind nextRead) := by
  cases read with
  | none =>
      have refused : reading = .refuse := follows
      rw [refused]
      rfl
  | some found =>
      obtain ⟨pos, accepted, isAt⟩ := follows
      rw [accepted]
      exact goesOn found.1 pos found.2 isAt

theorem Follows.accept {α : Type} (value : α) {pos : Nat} {rest : List Char}
    (isAt : At source pos rest) : Follows source (.accept value pos) (some (value, rest)) :=
  ⟨pos, rfl, isAt⟩

section Readers

variable {pos : Nat} {rest : List Char} (isAt : At source pos rest)

include isAt

theorem follows_eat {mark : Char} (ascii : mark.toNat < 0x80) :
    Follows source (eatAt source mark pos)
      (some ((eat? mark rest).isSome, (eat? mark rest).getD rest)) := by
  have same : eat? mark (behind source pos) = (eat? mark rest).map bytesOfChars := by
    rw [eat_congr isAt.spells, eat_bytes_of_chars ascii]
  rcases eat_at_cases mark isAt.inside with
    ⟨next, eaten, stays, found⟩ | ⟨next, eaten, stays, missed, skipped⟩
  · obtain ⟨later, isLater, spells⟩ := Option.map_eq_some_iff.mp (same.symm.trans found)
    rw [isLater]
    exact ⟨next, eaten, stays, by rw [← spells]; rfl⟩
  · rw [Option.map_eq_none_iff.mp (same.symm.trans missed)]
    exact ⟨next, eaten, stays, by rw [skipped, skip_gap_skip_gap]; exact isAt.spells⟩

theorem follows_eat_word {word : String} (size : word.utf8ByteSize = word.toList.length)
    (ascii : (word.toList.all fun mark => mark.toNat < 0x80) = true) :
    Follows source (eatWordAt source word pos)
      (some ((eatWord? word rest).isSome, (eatWord? word rest).getD rest)) := by
  have same : eatWord? word (behind source pos) = (eatWord? word rest).map bytesOfChars := by
    rw [eat_word_congr isAt.spells, eat_word_bytes_of_chars ascii]
  rcases eat_word_at_cases size isAt.inside with
    ⟨next, eaten, stays, found⟩ | ⟨next, eaten, stays, missed, skipped⟩
  · obtain ⟨later, isLater, spells⟩ := Option.map_eq_some_iff.mp (same.symm.trans found)
    rw [isLater]
    exact ⟨next, eaten, stays, by rw [← spells]; rfl⟩
  · rw [Option.map_eq_none_iff.mp (same.symm.trans missed)]
    exact ⟨next, eaten, stays, by rw [skipped, skip_gap_skip_gap]; exact isAt.spells⟩

theorem follows_read_name :
    Follows source (readNameAt source pos)
      ((readName? rest).map fun named => (String.ofList named.1, named.2)) := by
  have read := read_name_at_eq isAt.inside
  rw [read_name_congr isAt.spells, read_name_bytes_of_chars] at read
  cases named : readName? rest with
  | none =>
      rw [named] at read
      exact read
  | some named' =>
      rw [named] at read
      obtain ⟨next, bytes, stays, spells, isName, found⟩ := read
      rw [from_utf8_of_bytes isName] at found
      exact ⟨next, found, stays, by rw [spells]⟩

theorem follows_read_suffixes (array : Bool) :
    Follows source (readSuffixesAt source array pos) (readSuffixes? false array rest) := by
  have read := read_suffixes_at_eq array isAt.inside
  rw [← read_suffixes_skip_gap, isAt.spells, read_suffixes_skip_gap,
    read_suffixes_bytes_of_chars] at read
  cases found : readSuffixes? false array rest with
  | none =>
      rw [found] at read
      exact read
  | some ended =>
      rw [found] at read
      obtain ⟨next, accepted, stays, spells⟩ := read
      exact ⟨next, accepted, stays, by rw [spells]⟩

theorem follows_eat_separator :
    Follows source (eatSeparatorAt source pos)
      (some ((afterSeparator? rest).isSome, (afterSeparator? rest).getD rest)) := by
  have colons := follows_eat_word isAt (by decide : "::".utf8ByteSize = "::".toList.length)
    (by decide)
  unfold afterSeparator?
  cases found : eatWord? "::" rest with
  | some next =>
      rw [found] at colons
      obtain ⟨stop, eaten, isStop⟩ := colons
      exact ⟨stop, by rw [eatSeparatorAt, eaten]; rfl, isStop⟩
  | none =>
      rw [found] at colons
      obtain ⟨stop, eaten, isStop⟩ := colons
      have dot := follows_eat isStop (by decide : '.'.toNat < 0x80)
      rw [eatSeparatorAt, eaten, Option.none_or]
      exact dot

end Readers

def segmentsRead (steps : Nat) (rest : List Char) :
    Option ((List String × Option (List TypeRef)) × List Char) :=
  (readSegments? steps rest).map fun found =>
    ((found.1.map String.ofList, found.2.1), found.2.2)

/-- From every position in the text, every reader follows the one of characters. -/
structure ByPosition (source : List UInt8) (steps : Nat) : Prop where
  types : ∀ {pos rest}, At source pos rest →
    Follows source (readTypeAt source steps pos) (readType? steps rest)
  segments : ∀ {pos rest}, At source pos rest →
    Follows source (readSegmentsAt source steps pos) (segmentsRead steps rest)
  arguments : ∀ {pos rest}, At source pos rest →
    Follows source (readArgumentsAt source steps pos) (readArguments? steps rest)

namespace ByPosition

variable {steps : Nat} (byPosition : ByPosition source steps) {pos : Nat} {rest : List Char}
  (isAt : At source pos rest)

include byPosition isAt

theorem type_succ :
    Follows source (readTypeAt source (steps + 1) pos) (readType? (steps + 1) rest) := by
  have read : readType? (steps + 1) rest =
      (segmentsRead steps (namesStart rest)).bind fun found =>
        (readSuffixes? false false found.2).bind fun ended =>
          some (⟨String.intercalate "." found.1.1, found.1.2.getD [], ended.1⟩, ended.2) := by
    rw [read_type_succ, segmentsRead, Option.bind_map]
    simp only [Option.map_eq_bind]
    rfl
  rw [read, readTypeAt]
  obtain ⟨start, eaten, isStart⟩ := follows_eat_word isAt
    (by decide : "global::".utf8ByteSize = "global::".toList.length) (by decide)
  rw [eaten, Reading.accept_and_then]
  refine Follows.and_then (byPosition.segments isStart) fun found pos rest isAt => ?_
  refine Follows.and_then (follows_read_suffixes isAt false) fun array pos rest isAt => ?_
  exact Follows.accept _ isAt

theorem own :
    Follows source
      ((eatAt source '<' pos).andThen fun opened pos =>
        if opened then
          (readArgumentsAt source steps pos).andThen fun args pos => .accept (some args) pos
        else .accept none pos)
      (readOwn? steps rest) := by
  obtain ⟨next, eaten, isNext⟩ := follows_eat isAt (by decide : '<'.toNat < 0x80)
  rw [eaten, Reading.accept_and_then, readOwn?]
  cases opened : eat? '<' rest with
  | none =>
      rw [opened] at isNext
      exact Follows.accept none isNext
  | some inner =>
      rw [opened] at isNext
      dsimp only
      rw [Option.map_eq_bind]
      exact Follows.and_then (byPosition.arguments isNext) fun args pos rest isAt =>
        Follows.accept (some args) isAt

theorem more (name : List Char) (own : Option (List TypeRef)) :
    Follows source
      ((eatSeparatorAt source pos).andThen fun more pos =>
        if more then
          (readSegmentsAt source steps pos).andThen fun later pos =>
            .accept (String.ofList name :: later.1, later.2.or own) pos
        else .accept ([String.ofList name], own) pos)
      ((readMore? steps name own rest).map fun found =>
        ((found.1.map String.ofList, found.2.1), found.2.2)) := by
  obtain ⟨next, eaten, isNext⟩ := follows_eat_separator isAt
  rw [eaten, Reading.accept_and_then, readMore?]
  cases separated : afterSeparator? rest with
  | none =>
      rw [separated] at isNext
      exact Follows.accept ([String.ofList name], own) isNext
  | some start =>
      rw [separated] at isNext
      have read : ((readSegments? steps start).bind fun found =>
          some (name :: found.1, found.2.1.or own, found.2.2)).map (fun found =>
            ((found.1.map String.ofList, found.2.1), found.2.2)) =
          (segmentsRead steps start).bind fun found =>
            some ((String.ofList name :: found.1.1, found.1.2.or own), found.2) := by
        unfold segmentsRead
        cases readSegments? steps start <;> rfl
      dsimp only
      rw [Option.bind_eq_bind, read]
      exact Follows.and_then (byPosition.segments isNext) fun later pos rest isAt =>
        Follows.accept _ isAt

theorem segments_succ :
    Follows source (readSegmentsAt source (steps + 1) pos) (segmentsRead (steps + 1) rest) := by
  have named := follows_read_name isAt
  rw [readSegmentsAt, segmentsRead, read_segments_succ]
  cases found : readName? rest with
  | none =>
      rw [found] at named
      have refused : readNameAt source pos = .refuse := named
      rw [refused]
      rfl
  | some name =>
      rw [found] at named
      obtain ⟨next, accepted, isNext⟩ := named
      rw [accepted, Reading.accept_and_then, Option.bind_some, Option.map_bind]
      exact Follows.and_then (byPosition.own isNext) fun own pos rest isAt =>
        byPosition.more isAt name.1 own

theorem others (first : TypeRef) :
    Follows source
      ((eatAt source ',' pos).andThen fun more pos =>
        if more then
          (readArgumentsAt source steps pos).andThen fun others pos =>
            .accept (first :: others) pos
        else
          (eatAt source '>' pos).andThen fun closed pos =>
            if closed then .accept [first] pos else .refuse)
      (readOthers? steps first rest) := by
  obtain ⟨next, eaten, isNext⟩ := follows_eat isAt (by decide : ','.toNat < 0x80)
  rw [eaten, Reading.accept_and_then, readOthers?]
  cases more : eat? ',' rest with
  | some later =>
      rw [more] at isNext
      dsimp only
      rw [Option.map_eq_bind]
      exact Follows.and_then (byPosition.arguments isNext) fun others pos rest isAt =>
        Follows.accept _ isAt
  | none =>
      rw [more] at isNext
      obtain ⟨stop, closes, isStop⟩ := follows_eat isNext (by decide : '>'.toNat < 0x80)
      dsimp only [Option.isSome_none, Option.getD_none] at *
      rw [if_neg Bool.false_ne_true, closes, Reading.accept_and_then]
      cases closed : eat? '>' rest with
      | none => rfl
      | some behindMark =>
          rw [closed] at isStop
          exact Follows.accept [first] isStop

theorem arguments_succ :
    Follows source (readArgumentsAt source (steps + 1) pos) (readArguments? (steps + 1) rest) := by
  rw [read_arguments_succ, readArgumentsAt]
  exact Follows.and_then (byPosition.types isAt) fun first pos rest isAt =>
    byPosition.others isAt first

end ByPosition

theorem by_position (source : List UInt8) (steps : Nat) : ByPosition source steps := by
  induction steps with
  | zero =>
      constructor <;> intro pos rest isAt
      · simp [readTypeAt, readType?, Follows]
      · simp [readSegmentsAt, segmentsRead, readSegments?, Follows]
      · simp [readArgumentsAt, readArguments?, Follows]
  | succ steps ih => exact ⟨ih.type_succ, ih.segments_succ, ih.arguments_succ⟩

theorem eq_length_iff {pos : Nat} (inside : pos ≤ source.length) :
    pos = source.length ↔ behind source pos = [] := by
  rw [← List.length_eq_zero_iff, length_behind]
  omega

end Positions

def bytes (text : String) : List UInt8 :=
  text.toUTF8.data.toList

theorem at_start (text : String) : At (bytes text) 0 text.toList := by
  refine ⟨Nat.zero_le _, ?_⟩
  rw [← bytes_of_eq]
  rfl

/-- Reading a text at positions gives what reading its characters in as many steps gives. -/
theorem parse_at_eq (text : String) (steps : Nat) :
    parseAt (bytes text) steps =
      some ((readType? steps text.toList).bind fun found =>
        if (skipGap found.2).isEmpty then some found.1 else none) := by
  have read := (by_position (bytes text) steps).types (at_start text)
  unfold parseAt
  cases found : readType? steps text.toList with
  | none =>
      rw [found] at read
      have refused : readTypeAt (bytes text) steps 0 = .refuse := read
      rw [refused]
      rfl
  | some found' =>
      rw [found] at read
      obtain ⟨pos, accepted, isAt⟩ := read
      obtain ⟨stop, skipped, stays, spells⟩ := skip_gap_at_eq isAt.inside
      have ended : stop = (bytes text).length ↔ skipGap found'.2 = [] := by
        rw [eq_length_iff stays, spells, isAt.spells, skip_gap_bytes_of_chars,
          bytes_of_chars_eq_nil_iff]
      rw [accepted, Reading.accept_and_then, skipped, Reading.accept_and_then]
      by_cases atEnd : skipGap found'.2 = []
      · rw [if_pos (ended.mpr atEnd)]
        simp [Reading.accept, atEnd]
      · rw [if_neg (mt ended.mp atEnd)]
        simp [Reading.refuse, atEnd]

theorem parse_at_eq_parse {text : String} {steps : Nat}
    (enough : 2 * text.toList.length ≤ steps) :
    parseAt (bytes text) steps = some (parse? text) := by
  rw [parse_at_eq]
  congr 1
  apply Option.ext
  intro written
  rw [parse_eq_some_iff_reads, Option.bind_eq_some_iff]
  constructor
  · rintro ⟨⟨read, rest⟩, found, accepted⟩
    split at accepted
    · next ended =>
        cases accepted
        exact spells_text_of_read (fun _ wordless => wordless) found (List.isEmpty_iff.mp ended)
    · cases accepted
  · intro reads
    obtain ⟨read, found, same⟩ := read_of_spells_text reads enough
    exact ⟨(read, []), found, by rw [same fun _ wordless => wordless]; rfl⟩

/-- A text is accepted exactly if it derives from the grammar, by characters or by bytes, and what
is given is what the text says with every leading `global::` taken as the word. Read at positions in
its bytes the text gives the same, and no byte outside of it is ever asked for. -/
theorem parse_iff_grammar (text : String) :
    ((parse? text).isSome = true ↔ Derives text.toList) ∧
    ((parse? text).isSome = true ↔ Derives (bytesOf text)) ∧
    (∀ written, parse? text = some written ↔ Reads text.toList written) ∧
    (∀ written, parse? text = some written → Reads (bytesOf text) written.inBytes) ∧
    (∀ steps, parseAt (bytes text) steps ≠ none) ∧
    ∀ steps, 2 * text.toList.length ≤ steps → parseAt (bytes text) steps = some (parse? text) := by
  refine ⟨is_some_parse_iff_derives, ?_, fun _ => parse_eq_some_iff_reads, ?_, ?_, ?_⟩
  · rw [derives_bytes_of_iff]
    exact is_some_parse_iff_derives
  · intro written found
    exact reads_bytes_of (parse_eq_some_iff_reads.mp found)
  · intro steps
    rw [parse_at_eq]
    exact Option.some_ne_none _
  · intro steps enough
    exact parse_at_eq_parse enough

/-- The word before two names, and before the argument of the first of them. -/
def nestedText : String := "\tglobal::A<global::B> :: @c[ é, ]? "

theorem parse_iff_grammar_nested :
    Derives nestedText.toList ∧
    (∃ written, Reads nestedText.toList written ∧ Reads (bytesOf nestedText) written.inBytes ∧
      parseAt (bytes nestedText) 100 = some (some written) ∧ written.spelling = "A.c<B>[]") ∧
    eatWordAt (bytes nestedText) "::" 100 = none ∧ ¬Derives ("A.".toList) := by
  obtain ⟨accepted, -, read, readBytes, -, atPositions⟩ := parse_iff_grammar nestedText
  have spelled : (parse? nestedText).map spelling = some "A.c<B>[]" := by decide +kernel
  obtain ⟨written, found, isSpelled⟩ := Option.map_eq_some_iff.mp spelled
  refine ⟨?_, ⟨written, (read written).mp found, readBytes written found, ?_, isSpelled⟩, ?_, ?_⟩
  · apply accepted.mp
    rw [found]
    rfl
  · rw [atPositions 100 (by decide), found]
  · unfold eatWordAt skipGapAt
    decide +kernel
  · rw [← (parse_iff_grammar "A.").1]
    decide +kernel

end ReleaseAudit.Types.TypeRef
