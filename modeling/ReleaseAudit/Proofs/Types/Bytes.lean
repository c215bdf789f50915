import ReleaseAudit.Proofs.Types.Reading

/-!
# Written types, byte by byte

All marks of the grammar are ASCII, and a character beyond ASCII is a name
character like each of its bytes. So it makes no difference whether a text is
read by its characters or by its bytes: every byte is taken here as the
character with that code.
-/

namespace ReleaseAudit.Types.TypeRef

set_option autoImplicit false

def bytesOfChar (character : Char) : List Char :=
  (String.utf8EncodeChar character).map Char.ofUInt8

def bytesOfChars (characters : List Char) : List Char :=
  characters.flatMap bytesOfChar

/-- The bytes of a text, each as a character. -/
def bytesOf (text : String) : List Char :=
  text.toUTF8.data.toList.map Char.ofUInt8

theorem bytes_of_eq (text : String) : bytesOf text = bytesOfChars text.toList := by
  unfold bytesOf bytesOfChars
  rw [String.toUTF8, ← String.utf8Encode_toList, List.utf8Encode, List.toList_data_toByteArray,
    List.map_flatMap]
  rfl

/-- The same type with the bytes of its names. -/
def inBytes : TypeRef → TypeRef
  | ⟨name, args, array⟩ => ⟨String.ofList (bytesOf name), inBytesAll args, array⟩
where
  inBytesAll : List TypeRef → List TypeRef
    | [] => []
    | written :: rest => inBytes written :: inBytesAll rest

theorem in_bytes_all_eq_map (args : List TypeRef) : inBytes.inBytesAll args = args.map inBytes := by
  induction args with
  | nil => rfl
  | cons written rest ih => rw [inBytes.inBytesAll, ih, List.map_cons]

theorem to_nat_of_uint8 (byte : UInt8) : (Char.ofUInt8 byte).toNat = byte.toNat := by
  change byte.toUInt32.toNat = byte.toNat
  exact UInt8.toNat_toUInt32 byte

theorem bytes_of_char_ascii {character : Char} (ascii : character.toNat < 0x80) :
    bytesOfChar character = [character] := by
  have first : character.val.toNat ≤ 127 := Nat.le_of_lt_succ ascii
  have same : Char.ofUInt8 (UInt8.ofNat character.val.toNat) = character := by
    apply Char.ext
    apply UInt32.toNat_inj.mp
    change (Char.ofUInt8 _).toNat = character.toNat
    rw [to_nat_of_uint8, UInt8.toNat_ofNat_of_lt' (by change _ < 256; omega)]
    rfl
  unfold bytesOfChar String.utf8EncodeChar
  dsimp only
  rw [if_pos first, List.map_singleton, same]

theorem wide_of_mem_bytes_of_char {character byte : Char} (wide : 0x80 ≤ character.toNat)
    (member : byte ∈ bytesOfChar character) : 0x80 ≤ byte.toNat := by
  obtain ⟨code, isCode, rfl⟩ := List.mem_map.mp member
  have notFirst : ¬character.val.toNat ≤ 127 := Nat.not_le_of_lt wide
  have high : ∀ number, 128 ≤ number → number < 256 → 128 ≤ (UInt8.ofNat number).toNat := by
    intro number large small
    rwa [UInt8.toNat_ofNat_of_lt' small]
  rw [to_nat_of_uint8]
  unfold String.utf8EncodeChar at isCode
  dsimp only at isCode
  rw [if_neg notFirst] at isCode
  split at isCode
  · simp only [List.mem_cons, List.not_mem_nil, or_false] at isCode
    rcases isCode with rfl | rfl <;> apply high <;> omega
  · split at isCode
    · simp only [List.mem_cons, List.not_mem_nil, or_false] at isCode
      rcases isCode with rfl | rfl | rfl <;> apply high <;> omega
    · simp only [List.mem_cons, List.not_mem_nil, or_false] at isCode
      rcases isCode with rfl | rfl | rfl | rfl <;> apply high <;> omega

theorem bytes_of_char_ne_nil (character : Char) : bytesOfChar character ≠ [] := by
  simp [bytesOfChar, String.utf8EncodeChar_ne_nil]

theorem bytes_of_chars_cons (character : Char) (rest : List Char) :
    bytesOfChars (character :: rest) = bytesOfChar character ++ bytesOfChars rest :=
  List.flatMap_cons

theorem bytes_of_chars_append (left right : List Char) :
    bytesOfChars (left ++ right) = bytesOfChars left ++ bytesOfChars right :=
  List.flatMap_append

theorem bytes_of_chars_eq_nil_iff {characters : List Char} :
    bytesOfChars characters = [] ↔ characters = [] := by
  cases characters with
  | nil => simp [bytesOfChars]
  | cons character rest => simp [bytes_of_chars_cons, bytes_of_char_ne_nil]

theorem bytes_of_chars_cons_cases (character : Char) (rest : List Char) :
    bytesOfChars (character :: rest) = character :: bytesOfChars rest ∨
      0x80 ≤ character.toNat ∧ ∃ byte bytes, 0x80 ≤ byte.toNat ∧
        bytesOfChar character = byte :: bytes := by
  by_cases ascii : character.toNat < 0x80
  · left
    rw [bytes_of_chars_cons, bytes_of_char_ascii ascii]
    rfl
  · right
    have wide : 0x80 ≤ character.toNat := Nat.le_of_not_lt ascii
    obtain ⟨byte, bytes, split⟩ := List.exists_cons_of_ne_nil (bytes_of_char_ne_nil character)
    refine ⟨wide, byte, bytes, wide_of_mem_bytes_of_char wide ?_, split⟩
    rw [split]
    exact List.mem_cons_self

/-- A test that answers the same for all characters beyond ASCII. -/
def Uniform (test : Char → Bool) (answer : Bool) : Prop :=
  ∀ character, 0x80 ≤ character.toNat → test character = answer

theorem uniform_is_gap : Uniform isGap false := by
  intro character wide
  by_contra blank
  have isBlank : isGap character = true := by simpa using blank
  simp only [isGap, Bool.or_eq_true, beq_iff_eq] at isBlank
  rcases isBlank with (((rfl | rfl) | rfl) | rfl) | rfl <;> exact absurd wide (by decide)

theorem uniform_is_name_char : Uniform isNameChar true := by
  intro character wide
  simp [isNameChar, wide]

theorem ne_of_wide {character mark : Char} (wide : 0x80 ≤ character.toNat)
    (ascii : mark.toNat < 0x80) : character ≠ mark := by
  rintro rfl
  omega

theorem drop_while_bytes_of_chars {test : Char → Bool} {answer : Bool}
    (uniform : Uniform test answer)
    (characters : List Char) :
    (bytesOfChars characters).dropWhile test = bytesOfChars (characters.dropWhile test) := by
  induction characters with
  | nil => rfl
  | cons character rest ih =>
      rcases bytes_of_chars_cons_cases character rest with ascii | ⟨wide, byte, bytes, high, split⟩
      · rw [ascii, List.dropWhile_cons, List.dropWhile_cons, ih]
        split <;> simp [ascii]
      · cases answer with
        | true =>
            have passed : ∀ other ∈ bytesOfChar character, test other = true :=
              fun other member => uniform other (wide_of_mem_bytes_of_char wide member)
            rw [bytes_of_chars_cons, List.dropWhile_append_of_pos passed, ih,
              List.dropWhile_cons_of_pos (uniform character wide)]
        | false =>
            rw [List.dropWhile_cons_of_neg (by simp [uniform character wide]), bytes_of_chars_cons,
              split, List.cons_append, List.dropWhile_cons_of_neg (by simp [uniform byte high])]

theorem take_while_bytes_of_chars {test : Char → Bool} {answer : Bool}
    (uniform : Uniform test answer)
    (characters : List Char) :
    (bytesOfChars characters).takeWhile test = bytesOfChars (characters.takeWhile test) := by
  have whole :
      bytesOfChars (characters.takeWhile test) ++ bytesOfChars (characters.dropWhile test) =
        bytesOfChars characters := by
    rw [← bytes_of_chars_append, List.takeWhile_append_dropWhile]
  have parts : (bytesOfChars characters).takeWhile test ++
      (bytesOfChars characters).dropWhile test = bytesOfChars characters :=
    List.takeWhile_append_dropWhile
  rw [drop_while_bytes_of_chars uniform] at parts
  exact List.append_cancel_right (parts.trans whole.symm)

theorem skip_gap_bytes_of_chars (characters : List Char) :
    skipGap (bytesOfChars characters) = bytesOfChars (skipGap characters) :=
  drop_while_bytes_of_chars uniform_is_gap characters

theorem eat_bytes_of_chars {mark : Char} (ascii : mark.toNat < 0x80) (characters : List Char) :
    eat? mark (bytesOfChars characters) = (eat? mark characters).map bytesOfChars := by
  unfold eat?
  rw [skip_gap_bytes_of_chars]
  cases skipGap characters with
  | nil => rfl
  | cons character rest =>
      rcases bytes_of_chars_cons_cases character rest with isAscii |
        ⟨wide, byte, bytes, high, split⟩
      · rw [isAscii]
        dsimp only
        split <;> rfl
      · rw [bytes_of_chars_cons, split]
        simp [ne_of_wide wide ascii, ne_of_wide high ascii]

theorem after_head_bytes_of_chars {head : List Char}
    (ascii : (head.all fun mark => mark.toNat < 0x80) = true) (characters : List Char) :
    Text.afterHead? head (bytesOfChars characters) =
      (Text.afterHead? head characters).map bytesOfChars := by
  induction head generalizing characters with
  | nil => rfl
  | cons mark head ih =>
      rw [List.all_cons, Bool.and_eq_true, decide_eq_true_eq] at ascii
      obtain ⟨here, later⟩ := ascii
      cases characters with
      | nil => rfl
      | cons character rest =>
          rcases bytes_of_chars_cons_cases character rest with
            isAscii | ⟨wide, byte, bytes, high, split⟩
          · rw [isAscii, Text.afterHead?, Text.afterHead?, ih later]
            split <;> rfl
          · rw [bytes_of_chars_cons, split]
            simp [Text.afterHead?, (ne_of_wide wide here).symm, (ne_of_wide high here).symm]

theorem eat_word_bytes_of_chars {word : String}
    (ascii : (word.toList.all fun mark => mark.toNat < 0x80) = true) (characters : List Char) :
    eatWord? word (bytesOfChars characters) = (eatWord? word characters).map bytesOfChars := by
  unfold eatWord?
  rw [skip_gap_bytes_of_chars, after_head_bytes_of_chars ascii]

theorem is_digit_eq_false_of_wide {character : Char} (wide : 0x80 ≤ character.toNat) :
    character.isDigit = false := by
  have large : ¬character.val.toNat ≤ 57 := Nat.not_le_of_lt (Nat.lt_of_lt_of_le (by decide) wide)
  rw [Char.isDigit, Bool.and_eq_false_iff]
  exact Or.inr (decide_eq_false large)

theorem read_name_bytes_of_chars (characters : List Char) :
    readName? (bytesOfChars characters) =
      (readName? characters).map fun named => (bytesOfChars named.1, bytesOfChars named.2) := by
  have start : ∀ rest : List Char,
      (Text.afterHead? ['@'] (bytesOfChars rest)).getD (bytesOfChars rest) =
        bytesOfChars ((Text.afterHead? ['@'] rest).getD rest) := by
    intro rest
    rw [after_head_bytes_of_chars (by decide)]
    cases Text.afterHead? ['@'] rest <;> rfl
  unfold readName?
  dsimp only
  rw [skip_gap_bytes_of_chars, start, take_while_bytes_of_chars uniform_is_name_char,
    drop_while_bytes_of_chars uniform_is_name_char]
  generalize (Text.afterHead? ['@'] (skipGap characters)).getD (skipGap characters) = rest
  cases rest.takeWhile isNameChar with
  | nil => rfl
  | cons first others =>
      rcases bytes_of_chars_cons_cases first others with ascii | ⟨wide, byte, bytes, high, split⟩
      · rw [ascii]
        dsimp only
        split
        · rfl
        · rw [Option.map_some, ascii]
      · rw [bytes_of_chars_cons, split]
        simp [is_digit_eq_false_of_wide wide, is_digit_eq_false_of_wide high, bytes_of_chars_cons,
          split]

/-- Inside brackets all bytes of a wide character are passed over, as the character is. -/
theorem read_suffixes_wide_append (array : Bool) {front : List Char}
    (wide : ∀ other ∈ front, 0x80 ≤ other.toNat) (rest : List Char) :
    readSuffixes? true array (front ++ rest) = readSuffixes? true array rest := by
  induction front with
  | nil => rfl
  | cons other front ih =>
      obtain ⟨here, later⟩ := List.forall_mem_cons.mp wide
      rw [List.cons_append, readSuffixes?, if_pos rfl, if_neg (ne_of_wide here (by decide)),
        ih later]

theorem read_suffixes_bytes_of_chars (inside array : Bool) (characters : List Char) :
    readSuffixes? inside array (bytesOfChars characters) =
      (readSuffixes? inside array characters).map fun found =>
        (found.1, bytesOfChars found.2) := by
  induction characters generalizing inside array with
  | nil => cases inside <;> rfl
  | cons character rest ih =>
      rcases bytes_of_chars_cons_cases character rest with ascii | ⟨wide, byte, bytes, high, split⟩
      · rw [ascii, readSuffixes?, readSuffixes?]
        simp only [ih]
        split
        · split <;> rfl
        · split
          · rfl
          · split
            · rfl
            · rw [Option.map_some, ascii]
      · cases inside with
        | true =>
            rw [bytes_of_chars_cons,
              read_suffixes_wide_append array fun other => wide_of_mem_bytes_of_char wide, ih,
              readSuffixes?, if_pos rfl, if_neg (ne_of_wide wide (by decide))]
        | false =>
            rw [bytes_of_chars_cons, split]
            simp [readSuffixes?, uniform_is_gap character wide, uniform_is_gap byte high,
              ne_of_wide wide, ne_of_wide high, bytes_of_chars_cons, split]

theorem intercalate_bytes_of_chars (names : List (List Char)) :
    String.intercalate "." ((names.map bytesOfChars).map String.ofList) =
      String.ofList (bytesOf (String.intercalate "." (names.map String.ofList))) := by
  induction names with
  | nil => rfl
  | cons first rest ih =>
      cases rest with
      | nil => simp [bytes_of_eq]
      | cons second rest =>
          simp only [List.map_cons, String.intercalate_cons_cons] at ih ⊢
          rw [ih]
          simp only [bytes_of_eq, String.toList_append, String.toList_ofList, bytes_of_chars_append,
            String.ofList_append]
          rfl

/-- Every reader gives the same by bytes. -/
structure ByBytes (steps : Nat) : Prop where
  types : ∀ characters, readType? steps (bytesOfChars characters) =
    (readType? steps characters).map fun found => (found.1.inBytes, bytesOfChars found.2)
  segments : ∀ characters, readSegments? steps (bytesOfChars characters) =
    (readSegments? steps characters).map fun found =>
      (found.1.map bytesOfChars, found.2.1.map (List.map inBytes), bytesOfChars found.2.2)
  arguments : ∀ characters, readArguments? steps (bytesOfChars characters) =
    (readArguments? steps characters).map fun found =>
      (found.1.map inBytes, bytesOfChars found.2)

namespace ByBytes

variable {steps : Nat}

theorem type_succ (byBytes : ByBytes steps) (characters : List Char) :
    readType? (steps + 1) (bytesOfChars characters) =
      (readType? (steps + 1) characters).map fun found =>
        (found.1.inBytes, bytesOfChars found.2) := by
  have start : namesStart (bytesOfChars characters) = bytesOfChars (namesStart characters) := by
    unfold namesStart
    rw [eat_word_bytes_of_chars (by decide)]
    cases eatWord? "global::" characters <;> rfl
  rw [read_type_succ, read_type_succ, start, byBytes.segments]
  cases readSegments? steps (namesStart characters) with
  | none => rfl
  | some found =>
      simp only [Option.map_some, Option.bind_some, read_suffixes_bytes_of_chars]
      cases readSuffixes? false false found.2.2 with
      | none => rfl
      | some ended =>
          simp only [Option.map_some, intercalate_bytes_of_chars, inBytes, in_bytes_all_eq_map]
          cases found.2.1 <;> rfl

theorem own (byBytes : ByBytes steps) (afterName : List Char) :
    readOwn? steps (bytesOfChars afterName) =
      (readOwn? steps afterName).map fun found =>
        (found.1.map (List.map inBytes), bytesOfChars found.2) := by
  unfold readOwn?
  rw [eat_bytes_of_chars (by decide)]
  cases eat? '<' afterName with
  | none => rfl
  | some inner =>
      simp only [Option.map_some, byBytes.arguments, Option.map_map]
      rfl

theorem more (byBytes : ByBytes steps) (name afterOwn : List Char)
    (args : Option (List TypeRef)) :
    readMore? steps (bytesOfChars name) (args.map (List.map inBytes)) (bytesOfChars afterOwn) =
      (readMore? steps name args afterOwn).map fun found =>
        (found.1.map bytesOfChars, found.2.1.map (List.map inBytes), bytesOfChars found.2.2) := by
  have separated : afterSeparator? (bytesOfChars afterOwn) =
      (afterSeparator? afterOwn).map bytesOfChars := by
    unfold afterSeparator?
    rw [eat_word_bytes_of_chars (by decide), eat_bytes_of_chars (by decide), Option.map_or]
  unfold readMore?
  rw [separated]
  cases afterSeparator? afterOwn with
  | none => rfl
  | some next =>
      simp only [Option.map_some, byBytes.segments, Option.bind_eq_bind]
      cases readSegments? steps next with
      | none => rfl
      | some found => simp [Option.map_or]

theorem others (byBytes : ByBytes steps) (first : TypeRef) (afterFirst : List Char) :
    readOthers? steps first.inBytes (bytesOfChars afterFirst) =
      (readOthers? steps first afterFirst).map fun found =>
        (found.1.map inBytes, bytesOfChars found.2) := by
  unfold readOthers?
  rw [eat_bytes_of_chars (by decide), eat_bytes_of_chars (by decide)]
  cases eat? ',' afterFirst with
  | none =>
      simp only [Option.map_none, Option.map_map]
      rfl
  | some next =>
      simp only [Option.map_some, byBytes.arguments, Option.map_map]
      rfl

end ByBytes

theorem by_bytes (steps : Nat) : ByBytes steps := by
  induction steps with
  | zero =>
      constructor
      · intro characters
        simp [readType?]
      · intro characters
        simp [readSegments?]
      · intro characters
        simp [readArguments?]
  | succ steps ih =>
      constructor
      · exact ih.type_succ
      · intro characters
        rw [read_segments_succ, read_segments_succ, read_name_bytes_of_chars]
        cases readName? characters with
        | none => rfl
        | some named =>
            simp only [Option.map_some, Option.bind_some, ih.own]
            cases readOwn? steps named.2 with
            | none => rfl
            | some own => simp only [Option.map_some, Option.bind_some, ih.more]
      · intro characters
        rw [read_arguments_succ, read_arguments_succ, ih.types]
        cases readType? steps characters with
        | none => rfl
        | some first => simp only [Option.map_some, Option.bind_some, ih.others]

/-- The bytes of a text derive from the grammar exactly if its characters do. -/
theorem derives_bytes_of_iff (text : String) : Derives (bytesOf text) ↔ Derives text.toList := by
  rw [bytes_of_eq]
  constructor
  · rintro ⟨written, spelled⟩
    obtain ⟨read, found, -⟩ := read_of_spells_text spelled (Nat.le_refl _)
    rw [(by_bytes _).types] at found
    obtain ⟨⟨inner, rest⟩, isRead, same⟩ := Option.map_eq_some_iff.mp found
    have ended : rest = [] := bytes_of_chars_eq_nil_iff.mp (Prod.mk.inj same).2
    exact ⟨inner, spells_text_of_read (fun _ _ => trivial) isRead (by rw [ended]; rfl)⟩
  · rintro ⟨written, spelled⟩
    obtain ⟨read, found, -⟩ := read_of_spells_text spelled (Nat.le_refl _)
    have byByte := (by_bytes (2 * text.toList.length)).types text.toList
    rw [found, Option.map_some] at byByte
    exact ⟨_, spells_text_of_read (fun _ _ => trivial) byByte rfl⟩

/-- What the bytes of a text say is what its characters say. -/
theorem reads_bytes_of {text : String} {written : TypeRef} (reads : Reads text.toList written) :
    Reads (bytesOf text) written.inBytes := by
  rw [bytes_of_eq]
  obtain ⟨read, found, same⟩ := read_of_spells_text reads (Nat.le_refl _)
  have byByte := (by_bytes (2 * text.toList.length)).types text.toList
  rw [found, same fun _ wordless => wordless, Option.map_some] at byByte
  exact spells_text_of_read (fun _ wordless => wordless) byByte rfl

end ReleaseAudit.Types.TypeRef
