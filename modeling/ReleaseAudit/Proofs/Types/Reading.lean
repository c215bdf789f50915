import ReleaseAudit.Proofs.Types.Grammar

/-!
# Reading written types

The reader accepts exactly the texts that derive from the grammar, and gives
what they say when a leading `global::` is always taken as the word. The number
of steps it is given is enough for every text.
-/

namespace ReleaseAudit.Types.TypeRef

set_option autoImplicit false

variable {admits : List Char → Prop}

def readOwn? (steps : Nat) (afterName : List Char) : Option (Option (List TypeRef) × List Char) :=
  match eat? '<' afterName with
  | some inner => (readArguments? steps inner).map fun found => (some found.1, found.2)
  | none => some (none, afterName)

def readMore? (steps : Nat) (name : List Char) (own : Option (List TypeRef))
    (afterOwn : List Char) : Option (List (List Char) × Option (List TypeRef) × List Char) :=
  match afterSeparator? afterOwn with
  | some next => do
      let (names, later, rest) ← readSegments? steps next
      some (name :: names, later.or own, rest)
  | none => some ([name], own, afterOwn)

def readOthers? (steps : Nat) (first : TypeRef) (afterFirst : List Char) :
    Option (List TypeRef × List Char) :=
  match eat? ',' afterFirst with
  | some next => (readArguments? steps next).map fun found => (first :: found.1, found.2)
  | none => (eat? '>' afterFirst).map fun rest => ([first], rest)

theorem read_segments_succ (steps : Nat) (characters : List Char) :
    readSegments? (steps + 1) characters =
      (readName? characters).bind fun named => (readOwn? steps named.2).bind fun own =>
        readMore? steps named.1 own.1 own.2 := by
  rw [readSegments?, Option.bind_eq_bind]
  congr 1
  funext ⟨name, afterName⟩
  simp only [readOwn?]
  cases eat? '<' afterName with
  | none => rfl
  | some inner => rfl

theorem read_arguments_succ (steps : Nat) (characters : List Char) :
    readArguments? (steps + 1) characters =
      (readType? steps characters).bind fun first => readOthers? steps first.1 first.2 := by
  rw [readArguments?, Option.bind_eq_bind]
  rfl

def namesStart (characters : List Char) : List Char :=
  (eatWord? "global::" characters).getD characters

theorem read_type_succ (steps : Nat) (characters : List Char) :
    readType? (steps + 1) characters =
      (readSegments? steps (namesStart characters)).bind fun found =>
        (readSuffixes? false false found.2.2).map fun ended =>
          (⟨String.intercalate "." (found.1.map String.ofList), found.2.1.getD [], ended.1⟩,
            ended.2) := by
  rw [readType?, Option.bind_eq_bind]
  congr 1
  funext ⟨names, args, rest⟩
  exact Option.map_eq_bind.symm

theorem exists_gap_of_names_start {characters start : List Char}
    (found : eatWord? "global::" characters = some start) :
    ∃ gap, Gap gap ∧ characters = gap ++ (globalWord ++ start) := by
  obtain ⟨gap, blank, split⟩ := exists_gap characters
  exact ⟨gap, blank, eat_word_eq_some_iff.mp found ▸ split⟩

theorem wordless_of_eat_word {names rest : List Char}
    (absent : eatWord? "global::" (names ++ rest) = none) : Wordless names := by
  rintro ⟨more, first⟩
  have inside : skipGap (names ++ rest) = globalWord ++ (more ++ rest) := by
    have unfinished : ¬(names.dropWhile isGap).isEmpty = true := by
      rw [show names.dropWhile isGap = globalWord ++ more from first.symm]
      exact Bool.false_ne_true
    rw [skipGap, List.dropWhile_append, if_neg unfinished,
      show names.dropWhile isGap = globalWord ++ more from first.symm, List.append_assoc]
  rw [eat_word_eq_some_iff.mpr inside] at absent
  cases absent

/-- What each reader takes from the front of its text within a number of steps derives from the
grammar and says what the reader gives. -/
structure SpelledWithin (admits : List Char → Prop) (steps : Nat) : Prop where
  types : ∀ {characters written rest}, readType? steps characters = some (written, rest) →
    ∃ text gap, characters = text ++ (gap ++ rest) ∧ SpellsType admits text written ∧ Gap gap
  segments : ∀ {characters names args rest},
    readSegments? steps characters = some (names, args, rest) →
    ∃ text segments, characters = text ++ rest ∧ SpellsSegments admits text segments ∧
      names = segments.map Segment.identifier ∧
      args = (segments.filterMap Segment.args).getLast?
  arguments : ∀ {characters args rest}, readArguments? steps characters = some (args, rest) →
    ∃ text, characters = text ++ rest ∧ SpellsArguments admits text args

namespace SpelledWithin

variable {steps : Nat}

theorem type_succ (within : SpelledWithin admits steps)
    (wordless : ∀ names, Wordless names → admits names) {characters rest : List Char}
    {written : TypeRef} (found : readType? (steps + 1) characters = some (written, rest)) :
    ∃ text gap, characters = text ++ (gap ++ rest) ∧ SpellsType admits text written ∧
      Gap gap := by
  rw [read_type_succ] at found
  obtain ⟨⟨names, args, afterNames⟩, isSegments, isEnded⟩ := Option.bind_eq_some_iff.mp found
  obtain ⟨⟨array, afterSuffixes⟩, isSuffixes, same⟩ := Option.map_eq_some_iff.mp isEnded
  cases same
  obtain ⟨text, segments, start, spelled, rfl, rfl⟩ := within.segments isSegments
  obtain ⟨tail, gap, suffixes, rfl, ended, behind, rfl⟩ := exists_spells_of_read_suffixes isSuffixes
  have whole : (⟨String.intercalate "." ((segments.map Segment.identifier).map String.ofList),
      (segments.filterMap Segment.args).getLast?.getD [], false || suffixes.contains .brackets⟩ :
        TypeRef) = ofParts segments suffixes := by
    simp [ofParts, Function.comp_def]
  rw [whole]
  unfold namesStart at start
  cases word : eatWord? "global::" characters with
  | some names =>
      rw [word, Option.getD_some] at start
      obtain ⟨before, blank, rfl⟩ := exists_gap_of_names_start word
      refine ⟨_, gap, ?_, .mk blank (Or.inl rfl) spelled ended, behind⟩
      simp [start]
  | none =>
      rw [word, Option.getD_none] at start
      have admitted : admits text := wordless text (wordless_of_eat_word (start ▸ word))
      refine ⟨_, gap, ?_, .mk gap_nil (Or.inr ⟨rfl, admitted⟩) spelled ended, behind⟩
      simp [start]

theorem segment (within : SpelledWithin admits steps)
    {characters name afterName afterOwn : List Char} {own : Option (List TypeRef)}
    (isName : readName? characters = some (name, afterName))
    (isOwn : readOwn? steps afterName = some (own, afterOwn)) :
    ∃ text, characters = text ++ afterOwn ∧ SpellsSegment admits text ⟨name, own⟩ := by
  obtain ⟨gap, verbatim, blank, marked, identifier, -, rfl⟩ := read_name_eq_some_iff.mp isName
  unfold readOwn? at isOwn
  split at isOwn
  · next inner opened =>
      obtain ⟨⟨args, rest⟩, isRead, same⟩ := Option.map_eq_some_iff.mp isOwn
      cases same
      obtain ⟨opening, isGap, rfl⟩ := (eat_eq_some_iff (by decide)).mp opened
      obtain ⟨text, rfl, spelled⟩ := within.arguments isRead
      exact ⟨_, by simp, .generic blank marked identifier isGap spelled⟩
  · cases isOwn
    exact ⟨_, by simp, .bare blank marked identifier⟩

theorem more (within : SpelledWithin admits steps) {text name afterOwn rest : List Char}
    {own args : Option (List TypeRef)} {names : List (List Char)}
    (first : SpellsSegment admits text ⟨name, own⟩)
    (found : readMore? steps name own afterOwn = some (names, args, rest)) :
    ∃ longer segments, text ++ afterOwn = longer ++ rest ∧
      SpellsSegments admits longer segments ∧ names = segments.map Segment.identifier ∧
      args = (segments.filterMap Segment.args).getLast? := by
  unfold readMore? at found
  split at found
  · next next separated =>
      obtain ⟨⟨others, later, afterMore⟩, isMore, same⟩ := Option.bind_eq_some_iff.mp found
      cases same
      obtain ⟨gap, separator, blank, separates, rfl⟩ := separates_of_after_separator separated
      obtain ⟨behind, segments, rfl, spelled, rfl, rfl⟩ := within.segments isMore
      refine ⟨_, _, ?_, .cons first blank separates spelled, rfl, ?_⟩
      · simp
      · cases own <;> cases last : (segments.filterMap Segment.args).getLast? <;>
          simp [List.getLast?_cons, last]
  · cases found
    refine ⟨text, _, rfl, .last first, rfl, ?_⟩
    cases own <;> rfl

theorem others (within : SpelledWithin admits steps) {text gap afterFirst rest : List Char}
    {first : TypeRef} {args : List TypeRef} (spelled : SpellsType admits text first)
    (behind : Gap gap) (found : readOthers? steps first afterFirst = some (args, rest)) :
    ∃ longer, text ++ (gap ++ afterFirst) = longer ++ rest ∧
      SpellsArguments admits longer args := by
  unfold readOthers? at found
  split at found
  · next next separated =>
      obtain ⟨⟨more, afterMore⟩, isMore, same⟩ := Option.map_eq_some_iff.mp found
      cases same
      obtain ⟨before, blank, rfl⟩ := (eat_eq_some_iff (by decide)).mp separated
      obtain ⟨later, rfl, spelledLater⟩ := within.arguments isMore
      exact ⟨_, by simp, .cons spelled (behind.append blank) spelledLater⟩
  · obtain ⟨afterClose, closed, same⟩ := Option.map_eq_some_iff.mp found
    cases same
    obtain ⟨before, blank, rfl⟩ := (eat_eq_some_iff (by decide)).mp closed
    exact ⟨_, by simp, .last spelled (behind.append blank)⟩

end SpelledWithin

theorem spelled_within (wordless : ∀ names, Wordless names → admits names) (steps : Nat) :
    SpelledWithin admits steps := by
  induction steps with
  | zero =>
      constructor
      · intro characters written rest found
        simp [readType?] at found
      · intro characters names args rest found
        simp [readSegments?] at found
      · intro characters args rest found
        simp [readArguments?] at found
  | succ steps ih =>
      constructor
      · exact ih.type_succ wordless
      · intro characters names args rest found
        rw [read_segments_succ] at found
        obtain ⟨⟨name, afterName⟩, isName, afterThat⟩ := Option.bind_eq_some_iff.mp found
        obtain ⟨⟨own, afterOwn⟩, isOwn, isMore⟩ := Option.bind_eq_some_iff.mp afterThat
        obtain ⟨text, split, first⟩ := ih.segment isName isOwn
        rw [split]
        exact ih.more first isMore
      · intro characters args rest found
        rw [read_arguments_succ] at found
        obtain ⟨⟨first, afterFirst⟩, isFirst, isOthers⟩ := Option.bind_eq_some_iff.mp found
        obtain ⟨text, gap, split, spelled, behind⟩ := ih.types isFirst
        rw [split]
        exact ih.others spelled behind isOthers

theorem SpellsSegment.length_pos {text : List Char} {segment : Segment}
    (spelled : SpellsSegment admits text segment) : 0 < text.length := by
  cases spelled with
  | bare _ _ named =>
      have pos := List.length_pos_of_ne_nil named.nonempty
      simp only [List.length_append]
      omega
  | generic _ _ named _ _ =>
      have pos := List.length_pos_of_ne_nil named.nonempty
      simp only [List.length_append]
      omega

theorem SpellsSegments.length_pos {text : List Char} {segments : List Segment}
    (spelled : SpellsSegments admits text segments) : 0 < text.length := by
  cases spelled with
  | last only => exact only.length_pos
  | cons first _ _ _ =>
      have pos := first.length_pos
      simp only [List.length_append]
      omega

theorem SpellsArguments.length_pos {text : List Char} {args : List TypeRef}
    (spelled : SpellsArguments admits text args) : 0 < text.length := by
  cases spelled <;> simp only [List.length_append, List.length_cons] <;> omega

theorem SpellsSegment.gap_append {gap text : List Char} {segment : Segment} (blank : Gap gap)
    (spelled : SpellsSegment admits text segment) :
    SpellsSegment admits (gap ++ text) segment := by
  cases spelled with
  | bare inner marked named =>
      rw [← List.append_assoc]
      exact .bare (blank.append inner) marked named
  | generic inner marked named opened args =>
      rw [← List.append_assoc]
      exact .generic (blank.append inner) marked named opened args

theorem SpellsSegments.gap_append {gap text : List Char} {segments : List Segment}
    (blank : Gap gap) (spelled : SpellsSegments admits text segments) :
    SpellsSegments admits (gap ++ text) segments := by
  cases spelled with
  | last only => exact .last (only.gap_append blank)
  | cons first inner separates others =>
      rw [← List.append_assoc]
      exact .cons (first.gap_append blank) inner separates others

theorem ahead_separator {gap separator : List Char} (blank : Gap gap)
    (separates : separator = [':', ':'] ∨ separator = ['.']) (rest : List Char) :
    Ahead [':', '.', '?', '[', ',', '>'] (gap ++ (separator ++ rest)) := by
  rcases separates with rfl | rfl
  · exact ahead_mark blank (by decide) (by simp) _
  · exact ahead_mark blank (by decide) (by simp) _

/-- A name that the word starts with is the name in the word: in front of the colons stands a run of
name characters, as in front of `behind`. -/
theorem IsIdentifier.eq_of_word {gap verbatim name behind start : List Char}
    (named : IsIdentifier name) (blank : Gap gap) (marked : verbatim = [] ∨ verbatim = ['@'])
    (ends : EndsName behind)
    (word : skipGap (gap ++ (verbatim ++ (name ++ behind))) = globalWord ++ start) :
    verbatim = [] ∧ name = "global".toList ∧ behind = ':' :: ':' :: start := by
  rw [skip_gap_append blank] at word
  rcases marked with rfl | rfl
  · obtain ⟨first, others, rfl, inName, -⟩ := named.exists_cons
    rw [List.nil_append, List.cons_append, skip_gap_cons (is_gap_of_is_name_char inName),
      ← List.cons_append] at word
    obtain ⟨taken, dropped⟩ := take_while_name named.named ends
    have colonsEnd : EndsName (':' :: ':' :: start) := by
      intro character isColon
      cases isColon
      decide
    obtain ⟨wordTaken, wordDropped⟩ := take_while_name
      (List.all_eq_true.mp (show "global".toList.all isNameChar = true by decide)) colonsEnd
    rw [word] at taken dropped
    exact ⟨rfl, taken.symm.trans wordTaken, dropped.symm.trans wordDropped⟩
  · rw [List.singleton_append, skip_gap_cons (by decide)] at word
    exact absurd (List.cons.inj word).1 (by decide)

/-- A segment that starts with the word is the bare name in it, and the colons come next. -/
theorem SpellsSegment.eq_of_word {text rest start : List Char} {segment : Segment}
    (spelled : SpellsSegment admits text segment)
    (ahead : Ahead [':', '.', '?', '[', ',', '>'] rest)
    (word : skipGap (text ++ rest) = globalWord ++ start) :
    ∃ gap, Gap gap ∧ text = gap ++ "global".toList ∧ rest = ':' :: ':' :: start := by
  cases spelled with
  | @bare gap _ _ blank marked named =>
      rw [List.append_assoc, List.append_assoc] at word
      obtain ⟨rfl, rfl, rfl⟩ := named.eq_of_word blank marked (ahead.ends_name (by decide)) word
      exact ⟨gap, blank, rfl, rfl⟩
  | @generic gap _ _ opening inner _ blank marked named opened _ =>
      have angle : Ahead ['<'] (opening ++ '<' :: (inner ++ rest)) :=
        ahead_mark opened (by decide) (by simp) _
      simp only [List.append_assoc, List.cons_append] at word
      obtain ⟨-, -, colons⟩ := named.eq_of_word blank marked (angle.ends_name (by decide)) word
      rw [colons] at angle
      exact absurd (angle ':' rfl) (by decide)

theorem global_word_eq : globalWord = "global".toList ++ [':', ':'] := by
  decide

/-- Segments that start with the word go on with segments behind it. -/
theorem SpellsSegments.exists_of_word {names rest start : List Char} {segments : List Segment}
    (spelled : SpellsSegments admits names segments) (ahead : Ahead ['?', '[', ',', '>'] rest)
    (word : skipGap (names ++ rest) = globalWord ++ start) :
    ∃ gap more later, Gap gap ∧ names = gap ++ (globalWord ++ more) ∧ start = more ++ rest ∧
      SpellsSegments admits more later := by
  cases spelled with
  | last only =>
      obtain ⟨-, -, -, colons⟩ := only.eq_of_word (ahead.mono (by simp)) word
      rw [colons] at ahead
      exact absurd (ahead ':' rfl) (by decide)
  | @cons text inner separator more _ later first blank separates others =>
      simp only [List.append_assoc] at word
      obtain ⟨gap, before, rfl, colons⟩ :=
        first.eq_of_word (ahead_separator blank separates _) word
      have separated := after_separator_of_separates blank separates (more ++ rest)
      have direct := after_separator_of_separates gap_nil (Or.inl rfl) start
      rw [List.nil_append, List.cons_append, List.singleton_append, ← colons, separated,
        Option.some.injEq] at direct
      have marks : (inner ++ separator) ++ (more ++ rest) = [':', ':'] ++ (more ++ rest) := by
        rw [List.append_assoc, colons, direct]
        rfl
      refine ⟨gap, more, later, before, ?_, direct.symm, others⟩
      rw [← List.append_assoc inner, List.append_cancel_right marks, global_word_eq]
      simp only [List.append_assoc]

/-- Where the names of a type start, segments are found: those that it is made of, unless the word
is read in place of a name. -/
theorem exists_names {gap word names rest : List Char} {segments : List Segment} (blank : Gap gap)
    (start : word = globalWord ∨ word = [] ∧ admits names)
    (spelled : SpellsSegments admits names segments) (ahead : Ahead ['?', '[', ',', '>'] rest) :
    ∃ found parts, namesStart (gap ++ (word ++ (names ++ rest))) = found ++ rest ∧
      SpellsSegments admits found parts ∧ found.length ≤ (gap ++ (word ++ names)).length ∧
      ((∀ names, admits names → Wordless names) → parts = segments) := by
  unfold namesStart
  rcases start with rfl | ⟨rfl, admitted⟩
  · have behind : eatWord? "global::" (gap ++ (globalWord ++ (names ++ rest))) =
        some (names ++ rest) := by
      rw [eat_word_eq_some_iff, skip_gap_append blank]
      exact skip_gap_cons (by decide) _
    refine ⟨names, segments, by rw [behind]; rfl, spelled, ?_, fun _ => rfl⟩
    simp only [List.length_append]
    omega
  · rw [List.nil_append]
    cases word : eatWord? "global::" (gap ++ (names ++ rest)) with
    | none =>
        refine ⟨gap ++ names, segments, ?_, spelled.gap_append blank, Nat.le_refl _, fun _ => rfl⟩
        rw [Option.getD_none, List.append_assoc]
    | some start =>
        rw [eat_word_eq_some_iff, skip_gap_append blank] at word
        obtain ⟨before, more, later, beforeBlank, rfl, rfl, others⟩ :=
          spelled.exists_of_word ahead word
        refine ⟨more, later, rfl, others, ?_, ?_⟩
        · simp only [List.length_append]
          omega
        · intro wordless
          refine absurd ?_ (wordless _ admitted)
          rw [skip_gap_append beforeBlank]
          exact ⟨more, (skip_gap_cons (by decide) _).symm⟩

/-- Within a number of steps each reader reads what derives from the grammar and is not too long.
Where the word is never taken for a name, it gives what the text says. -/
structure ReadWithin (admits : List Char → Prop) (steps : Nat) : Prop where
  types : ∀ {text written rest}, SpellsType admits text written → Ahead [',', '>'] rest →
    2 * text.length ≤ steps →
    ∃ read, readType? steps (text ++ rest) = some (read, skipGap rest) ∧
      ((∀ names, admits names → Wordless names) → read = written)
  segments : ∀ {text segments rest}, SpellsSegments admits text segments →
    Ahead ['?', '[', ',', '>'] rest → 2 * text.length ≤ steps + 1 →
    ∃ names args, readSegments? steps (text ++ rest) = some (names, args, rest) ∧
      ((∀ names, admits names → Wordless names) → names = segments.map Segment.identifier ∧
        args = (segments.filterMap Segment.args).getLast?)
  arguments : ∀ {text args} (rest : List Char), SpellsArguments admits text args →
    2 * text.length ≤ steps + 1 →
    ∃ read, readArguments? steps (text ++ rest) = some (read, rest) ∧
      ((∀ names, admits names → Wordless names) → read = args)

namespace ReadWithin

variable {steps : Nat}

theorem type_succ (within : ReadWithin admits steps) {text rest : List Char} {written : TypeRef}
    (spelled : SpellsType admits text written) (ahead : Ahead [',', '>'] rest)
    (enough : 2 * text.length ≤ steps + 1) :
    ∃ read, readType? (steps + 1) (text ++ rest) = some (read, skipGap rest) ∧
      ((∀ names, admits names → Wordless names) → read = written) := by
  cases spelled with
  | @mk gap word names tail segments suffixes blank start inner ended =>
      obtain ⟨found, parts, isStart, isFound, shorter, same⟩ :=
        exists_names blank start inner (ended.ahead ahead)
      have fits : 2 * found.length ≤ steps + 1 := by
        simp only [List.length_append] at shorter enough
        omega
      obtain ⟨read, args, isRead, asParts⟩ :=
        within.segments isFound (ended.ahead ahead) fits
      rw [read_type_succ]
      simp only [List.append_assoc, isStart, isRead, Option.bind_some,
        read_suffixes_of_spells ended ahead, Option.map_some]
      refine ⟨_, rfl, ?_⟩
      intro wordless
      obtain ⟨rfl, rfl⟩ := asParts wordless
      rw [same wordless]
      simp [ofParts, Function.comp_def]

theorem segment (within : ReadWithin admits steps) {text rest : List Char} {segment : Segment}
    (spelled : SpellsSegment admits text segment)
    (ahead : Ahead [':', '.', '?', '[', ',', '>'] rest) (enough : 2 * text.length ≤ steps + 2) :
    ∃ afterName own, readName? (text ++ rest) = some (segment.identifier, afterName) ∧
      readOwn? steps afterName = some (own, rest) ∧
      ((∀ names, admits names → Wordless names) → own = segment.args) := by
  cases spelled with
  | @bare gap verbatim name blank marked named =>
      refine ⟨rest, none, ?_, ?_, fun _ => rfl⟩
      · rw [read_name_eq_some_iff]
        exact ⟨gap, verbatim, blank, marked, named, ahead.ends_name (by decide), by simp⟩
      · rw [readOwn?, ahead.eat_eq_none (by decide)]
  | @generic gap verbatim name opening inner args blank marked named opened spelled =>
      have angle : Ahead ['<'] (opening ++ '<' :: (inner ++ rest)) :=
        ahead_mark opened (by decide) (by simp) _
      have fits : 2 * inner.length ≤ steps + 1 := by
        have pos := List.length_pos_of_ne_nil named.nonempty
        simp only [List.length_append, List.length_cons] at enough
        omega
      obtain ⟨read, isRead, same⟩ := within.arguments rest spelled fits
      refine ⟨opening ++ '<' :: (inner ++ rest), some read, ?_, ?_, ?_⟩
      · rw [read_name_eq_some_iff]
        exact ⟨gap, verbatim, blank, marked, named, angle.ends_name (by decide), by simp⟩
      · rw [readOwn?, (eat_eq_some_iff (by decide)).mpr ⟨opening, opened, rfl⟩]
        simp [isRead]
      · intro wordless
        rw [same wordless]

theorem segments_succ (within : ReadWithin admits steps) {text rest : List Char}
    {segments : List Segment} (spelled : SpellsSegments admits text segments)
    (ahead : Ahead ['?', '[', ',', '>'] rest) (enough : 2 * text.length ≤ steps + 2) :
    ∃ names args, readSegments? (steps + 1) (text ++ rest) = some (names, args, rest) ∧
      ((∀ names, admits names → Wordless names) → names = segments.map Segment.identifier ∧
        args = (segments.filterMap Segment.args).getLast?) := by
  rw [read_segments_succ]
  cases spelled with
  | @last _ segment only =>
      obtain ⟨afterName, own, isName, isOwn, same⟩ :=
        within.segment only (ahead.mono (by simp)) enough
      rw [isName, Option.bind_some, isOwn, Option.bind_some, readMore?,
        ahead.after_separator_eq_none (by decide) (by decide)]
      refine ⟨_, _, rfl, ?_⟩
      intro wordless
      rw [same wordless]
      refine ⟨rfl, ?_⟩
      cases isArgs : segment.args <;> simp [isArgs]
  | @cons first gap separator more segment segments isFirst blank separates others =>
      have fitsFirst : 2 * first.length ≤ steps + 2 := by
        simp only [List.length_append] at enough
        omega
      have fitsMore : 2 * more.length ≤ steps + 1 := by
        have pos := isFirst.length_pos
        simp only [List.length_append] at enough
        omega
      obtain ⟨afterName, own, isName, isOwn, same⟩ :=
        within.segment isFirst (ahead_separator blank separates (more ++ rest)) fitsFirst
      obtain ⟨names, args, isRead, asSegments⟩ := within.segments others ahead fitsMore
      simp only [List.append_assoc, isName, Option.bind_some, isOwn, readMore?,
        after_separator_of_separates blank separates, isRead, Option.bind_eq_bind]
      refine ⟨_, _, rfl, ?_⟩
      intro wordless
      obtain ⟨rfl, rfl⟩ := asSegments wordless
      rw [same wordless]
      refine ⟨rfl, ?_⟩
      cases isArgs : segment.args <;>
        cases last : (segments.filterMap Segment.args).getLast? <;>
        simp [isArgs, last, List.getLast?_cons]

theorem arguments_succ (within : ReadWithin admits steps) {text : List Char} {args : List TypeRef}
    (rest : List Char) (spelled : SpellsArguments admits text args)
    (enough : 2 * text.length ≤ steps + 2) :
    ∃ read, readArguments? (steps + 1) (text ++ rest) = some (read, rest) ∧
      ((∀ names, admits names → Wordless names) → read = args) := by
  rw [read_arguments_succ]
  cases spelled with
  | @last text gap arg only blank =>
      have fits : 2 * text.length ≤ steps := by
        simp only [List.length_append, List.length_singleton] at enough
        omega
      have ahead : Ahead [',', '>'] (gap ++ '>' :: rest) :=
        ahead_mark blank (by decide) (by simp) _
      obtain ⟨read, isRead, same⟩ := within.types only ahead fits
      have closed : skipGap (gap ++ '>' :: rest) = '>' :: rest := by
        rw [skip_gap_append blank, skip_gap_cons (by decide)]
      have angle : eat? '>' ('>' :: rest) = some rest :=
        (eat_eq_some_iff (by decide)).mpr ⟨[], gap_nil, rfl⟩
      have noComma : eat? ',' ('>' :: rest) = none :=
        (ahead_mark gap_nil (by decide) List.mem_cons_self rest).eat_eq_none
          (show ',' ∉ ['>'] by decide)
      simp only [List.append_assoc, List.singleton_append, isRead, closed, Option.bind_some,
        readOthers?, noComma, angle, Option.map_some]
      exact ⟨_, rfl, fun wordless => by rw [same wordless]⟩
  | @cons text gap more arg args first blank others =>
      have fitsFirst : 2 * text.length ≤ steps := by
        simp only [List.length_append, List.length_cons] at enough
        omega
      have fitsMore : 2 * more.length ≤ steps + 1 := by
        simp only [List.length_append, List.length_cons] at enough
        omega
      have ahead : Ahead [',', '>'] (gap ++ ',' :: (more ++ rest)) :=
        ahead_mark blank (by decide) (by simp) _
      obtain ⟨read, isRead, same⟩ := within.types first ahead fitsFirst
      obtain ⟨later, isLater, sameLater⟩ := within.arguments rest others fitsMore
      have separated : skipGap (gap ++ ',' :: (more ++ rest)) = ',' :: (more ++ rest) := by
        rw [skip_gap_append blank, skip_gap_cons (by decide)]
      have comma : eat? ',' (',' :: (more ++ rest)) = some (more ++ rest) :=
        (eat_eq_some_iff (by decide)).mpr ⟨[], gap_nil, rfl⟩
      simp only [List.append_assoc, List.cons_append, isRead, separated, Option.bind_some,
        readOthers?, comma, isLater, Option.map_some]
      exact ⟨_, rfl, fun wordless => by rw [same wordless, sameLater wordless]⟩

end ReadWithin

theorem read_within (steps : Nat) : ReadWithin admits steps := by
  induction steps with
  | zero =>
      constructor
      · intro text written rest spelled _ enough
        cases spelled with
        | mk _ _ inner _ =>
            have pos := inner.length_pos
            simp only [List.length_append] at enough
            omega
      · intro text segments rest spelled _ enough
        have pos := spelled.length_pos
        omega
      · intro text args rest spelled enough
        have pos := spelled.length_pos
        omega
  | succ steps ih =>
      constructor
      · intro text written rest
        exact ih.type_succ
      · intro text segments rest
        exact ih.segments_succ
      · intro text args rest
        exact ih.arguments_succ rest

theorem spells_text_of_read (wordless : ∀ names, Wordless names → admits names) {steps : Nat}
    {characters rest : List Char} {written : TypeRef}
    (found : readType? steps characters = some (written, rest)) (ended : skipGap rest = []) :
    SpellsText admits characters written := by
  obtain ⟨text, gap, split, spelled, behind⟩ := (spelled_within wordless steps).types found
  obtain ⟨after, blank, isRest⟩ := exists_gap rest
  rw [ended, List.append_nil] at isRest
  exact ⟨text, gap ++ rest, split, spelled, behind.append (isRest ▸ blank)⟩

theorem read_of_spells_text {steps : Nat} {characters : List Char} {written : TypeRef}
    (spelled : SpellsText admits characters written) (enough : 2 * characters.length ≤ steps) :
    ∃ read, readType? steps characters = some (read, []) ∧
      ((∀ names, admits names → Wordless names) → read = written) := by
  obtain ⟨text, gap, rfl, inner, blank⟩ := spelled
  have fits : 2 * text.length ≤ steps := by
    rw [List.length_append] at enough
    omega
  have whole := (read_within steps).types inner (ahead_gap _ blank) fits
  rwa [skip_gap_eq_nil blank] at whole

theorem parse_eq_some_iff {text : String} {written : TypeRef} :
    parse? text = some written ↔
      ∃ rest, readType? (2 * text.toList.length + 2) text.toList = some (written, rest) ∧
        skipGap rest = [] := by
  unfold parse?
  split
  · next read rest found =>
      by_cases ended : skipGap rest = []
      · simp [found, ended]
      · simp [found, ended]
  · next found => simp [found]

/-- What is given is what the text says. -/
theorem parse_eq_some_iff_reads {text : String} {written : TypeRef} :
    parse? text = some written ↔ Reads text.toList written := by
  rw [parse_eq_some_iff]
  constructor
  · rintro ⟨rest, found, ended⟩
    exact spells_text_of_read (fun _ wordless => wordless) found ended
  · intro reads
    obtain ⟨read, found, same⟩ := read_of_spells_text reads (Nat.le_add_right _ 2)
    exact ⟨[], same (fun _ wordless => wordless) ▸ found, rfl⟩

theorem is_some_parse_iff_derives {text : String} :
    (parse? text).isSome = true ↔ Derives text.toList := by
  rw [Option.isSome_iff_exists]
  constructor
  · rintro ⟨written, found⟩
    obtain ⟨rest, read, ended⟩ := parse_eq_some_iff.mp found
    exact ⟨written, spells_text_of_read (fun _ _ => trivial) read ended⟩
  · rintro ⟨written, spelled⟩
    obtain ⟨read, found, -⟩ := read_of_spells_text spelled (Nat.le_add_right _ 2)
    exact ⟨read, parse_eq_some_iff.mpr ⟨[], found, rfl⟩⟩

end ReleaseAudit.Types.TypeRef
