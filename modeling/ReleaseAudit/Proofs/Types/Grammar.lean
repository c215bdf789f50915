import Mathlib.Data.List.Basic
import ReleaseAudit.Types.Reference

/-!
# The grammar of written types

    text       = type gap
    type       = gap [ global:: ] segment { gap ( :: | . ) segment } { suffix }
    segment    = gap [ @ ] identifier [ gap < type { gap , type } gap > ]
    suffix     = gap ?  |  gap [ anything but a closing bracket ]

One text may derive in two ways: `global::A` as the name `A` behind the word,
or as the two names `global` and `A`. The relations below therefore take the
condition under which segments may stand without the word in front of them, and
say both what derives at all and what is read when the word always comes first.
-/

namespace ReleaseAudit.Types.TypeRef

set_option autoImplicit false

def Gap (characters : List Char) : Prop :=
  ∀ character ∈ characters, isGap character = true

instance (characters : List Char) : Decidable (Gap characters) :=
  decidable_of_iff (characters.all isGap = true) List.all_eq_true

/-- A non-empty run of name characters that does not start with a digit. -/
@[mk_iff]
structure IsIdentifier (characters : List Char) : Prop where
  nonempty : characters ≠ []
  named : ∀ character ∈ characters, isNameChar character = true
  noDigit : ∀ first ∈ characters.head?, first.isDigit = false

instance (characters : List Char) : Decidable (IsIdentifier characters) :=
  decidable_of_iff
    (characters ≠ [] ∧ characters.all isNameChar = true ∧
      characters.head?.any Char.isDigit = false) <| by
    rw [isIdentifier_iff, List.all_eq_true]
    cases characters <;> simp

/-- One name of a written type, with the arguments that follow it. -/
structure Segment where
  identifier : List Char
  args : Option (List TypeRef)

inductive Suffix where
  | question
  | brackets
deriving DecidableEq

def globalWord : List Char := "global::".toList

/-- What segments and suffixes say together: all names, the arguments of the last segment that has
any, and whether there are brackets. -/
def ofParts (segments : List Segment) (suffixes : List Suffix) : TypeRef where
  name := String.intercalate "." (segments.map fun segment => String.ofList segment.identifier)
  args := (segments.filterMap Segment.args).getLast?.getD []
  array := suffixes.contains .brackets

inductive SpellsSuffixes : List Char → List Suffix → Prop
  | nil : SpellsSuffixes [] []
  | question {gap more : List Char} {suffixes : List Suffix} (blank : Gap gap)
      (rest : SpellsSuffixes more suffixes) :
      SpellsSuffixes (gap ++ '?' :: more) (.question :: suffixes)
  | brackets {gap inside more : List Char} {suffixes : List Suffix} (blank : Gap gap)
      (unclosed : ']' ∉ inside) (rest : SpellsSuffixes more suffixes) :
      SpellsSuffixes (gap ++ '[' :: (inside ++ ']' :: more)) (.brackets :: suffixes)

mutual

/-- A text is a type and says `written`. Segments without the word `global::` in front of them must
be among those that `admits` allows. -/
inductive SpellsType (admits : List Char → Prop) : List Char → TypeRef → Prop
  | mk {gap word names tail : List Char} {segments : List Segment} {suffixes : List Suffix}
      (blank : Gap gap) (start : word = globalWord ∨ word = [] ∧ admits names)
      (spelled : SpellsSegments admits names segments) (ended : SpellsSuffixes tail suffixes) :
      SpellsType admits (gap ++ (word ++ (names ++ tail))) (ofParts segments suffixes)

inductive SpellsSegments (admits : List Char → Prop) : List Char → List Segment → Prop
  | last {text : List Char} {segment : Segment} (only : SpellsSegment admits text segment) :
      SpellsSegments admits text [segment]
  | cons {text gap separator more : List Char} {segment : Segment} {segments : List Segment}
      (first : SpellsSegment admits text segment) (blank : Gap gap)
      (separates : separator = [':', ':'] ∨ separator = ['.'])
      (others : SpellsSegments admits more segments) :
      SpellsSegments admits (text ++ (gap ++ (separator ++ more))) (segment :: segments)

inductive SpellsSegment (admits : List Char → Prop) : List Char → Segment → Prop
  | bare {gap verbatim name : List Char} (blank : Gap gap)
      (marked : verbatim = [] ∨ verbatim = ['@']) (named : IsIdentifier name) :
      SpellsSegment admits (gap ++ (verbatim ++ name)) ⟨name, none⟩
  | generic {gap verbatim name opening inner : List Char} {args : List TypeRef} (blank : Gap gap)
      (marked : verbatim = [] ∨ verbatim = ['@']) (named : IsIdentifier name)
      (opened : Gap opening) (spelled : SpellsArguments admits inner args) :
      SpellsSegment admits (gap ++ (verbatim ++ (name ++ (opening ++ '<' :: inner))))
        ⟨name, some args⟩

inductive SpellsArguments (admits : List Char → Prop) : List Char → List TypeRef → Prop
  | last {text gap : List Char} {arg : TypeRef} (only : SpellsType admits text arg)
      (blank : Gap gap) : SpellsArguments admits (text ++ (gap ++ ['>'])) [arg]
  | cons {text gap more : List Char} {arg : TypeRef} {args : List TypeRef}
      (first : SpellsType admits text arg) (blank : Gap gap)
      (others : SpellsArguments admits more args) :
      SpellsArguments admits (text ++ (gap ++ ',' :: more)) (arg :: args)

end

def SpellsText (admits : List Char → Prop) (characters : List Char) (written : TypeRef) : Prop :=
  ∃ text gap, characters = text ++ gap ∧ SpellsType admits text written ∧ Gap gap

def Derives (characters : List Char) : Prop :=
  ∃ written, SpellsText (fun _ => True) characters written

def Wordless (characters : List Char) : Prop :=
  ¬globalWord <+: skipGap characters

/-- The text derives from the grammar with every leading `global::` taken as the word, and then
says `written`. -/
def Reads (characters : List Char) (written : TypeRef) : Prop :=
  SpellsText Wordless characters written

theorem gap_nil : Gap [] := by
  simp [Gap]

theorem Gap.append {left right : List Char} (first : Gap left) (second : Gap right) :
    Gap (left ++ right) := by
  intro character member
  rcases List.mem_append.mp member with inLeft | inRight
  · exact first character inLeft
  · exact second character inRight

theorem skip_gap_append {gap : List Char} (blank : Gap gap) (rest : List Char) :
    skipGap (gap ++ rest) = skipGap rest :=
  List.dropWhile_append_of_pos blank

theorem skip_gap_eq_nil {gap : List Char} (blank : Gap gap) : skipGap gap = [] := by
  simpa [skipGap] using skip_gap_append blank []

theorem skip_gap_cons {character : Char} (mark : isGap character = false) (rest : List Char) :
    skipGap (character :: rest) = character :: rest := by
  simp [skipGap, mark]

theorem exists_gap (characters : List Char) :
    ∃ gap, Gap gap ∧ characters = gap ++ skipGap characters := by
  refine ⟨characters.takeWhile isGap, ?_, List.takeWhile_append_dropWhile.symm⟩
  exact List.all_eq_true.mp List.all_takeWhile

theorem skip_gap_eq_cons_iff {mark : Char} (notBlank : isGap mark = false)
    {characters rest : List Char} :
    skipGap characters = mark :: rest ↔ ∃ gap, Gap gap ∧ characters = gap ++ mark :: rest := by
  constructor
  · intro found
    obtain ⟨gap, blank, split⟩ := exists_gap characters
    exact ⟨gap, blank, found ▸ split⟩
  · rintro ⟨gap, blank, rfl⟩
    rw [skip_gap_append blank, skip_gap_cons notBlank]

theorem eat_eq_some_iff {mark : Char} (notBlank : isGap mark = false)
    {characters rest : List Char} :
    eat? mark characters = some rest ↔ ∃ gap, Gap gap ∧ characters = gap ++ mark :: rest := by
  rw [← skip_gap_eq_cons_iff notBlank]
  unfold eat?
  split
  · next character others found =>
      rw [found, List.cons.injEq]
      split
      · next same => simp [same]
      · next differs => simp [differs]
  · next found => simp [found]

/-- Behind blanks comes one of the marks, or the end. -/
def Ahead (marks rest : List Char) : Prop :=
  ∀ mark ∈ (skipGap rest).head?, mark ∈ marks

theorem ahead_gap (marks : List Char) {gap : List Char} (blank : Gap gap) : Ahead marks gap := by
  simp [Ahead, skip_gap_eq_nil blank]

theorem ahead_mark {marks gap : List Char} {mark : Char} (blank : Gap gap)
    (notBlank : isGap mark = false) (isMark : mark ∈ marks) (rest : List Char) :
    Ahead marks (gap ++ mark :: rest) := by
  simpa [Ahead, skip_gap_append blank, skip_gap_cons notBlank] using isMark

theorem Ahead.mono {marks more rest : List Char} (ahead : Ahead marks rest)
    (subset : marks ⊆ more) : Ahead more rest :=
  fun mark first => subset (ahead mark first)

theorem Ahead.eat_eq_none {marks rest : List Char} (ahead : Ahead marks rest) {mark : Char}
    (absent : mark ∉ marks) : eat? mark rest = none := by
  unfold eat?
  split
  · next character others found =>
      rw [if_neg]
      rintro rfl
      exact absent (ahead character (by rw [found]; rfl))
  · rfl

theorem after_head_eq_some_iff {head characters rest : List Char} :
    Text.afterHead? head characters = some rest ↔ characters = head ++ rest := by
  induction head generalizing characters with
  | nil => simp [Text.afterHead?, eq_comm]
  | cons mark head ih =>
      cases characters with
      | nil => simp [Text.afterHead?]
      | cons character others =>
          rw [Text.afterHead?, List.cons_append, List.cons.injEq]
          split
          · next same => simp [ih, same]
          · next differs => simp [Ne.symm differs]

theorem eat_word_eq_some_iff {word : String} {characters rest : List Char} :
    eatWord? word characters = some rest ↔ skipGap characters = word.toList ++ rest :=
  after_head_eq_some_iff

/-- What follows the mark between two segments. -/
def afterSeparator? (rest : List Char) : Option (List Char) :=
  (eatWord? "::" rest).or (eat? '.' rest)

theorem after_separator_of_separates {gap separator : List Char} (blank : Gap gap)
    (separates : separator = [':', ':'] ∨ separator = ['.']) (next : List Char) :
    afterSeparator? (gap ++ (separator ++ next)) = some next := by
  unfold afterSeparator?
  rcases separates with rfl | rfl
  · have colons : eatWord? "::" (gap ++ ([':', ':'] ++ next)) = some next := by
      rw [eat_word_eq_some_iff, skip_gap_append blank]
      exact skip_gap_cons (by decide) _
    rw [colons, Option.some_or]
  · have noColons : eatWord? "::" (gap ++ (['.'] ++ next)) = none := by
      unfold eatWord?
      rw [skip_gap_append blank, List.singleton_append, skip_gap_cons (by decide)]
      rfl
    rw [noColons, Option.none_or]
    exact (eat_eq_some_iff (by decide)).mpr ⟨gap, blank, rfl⟩

theorem separates_of_after_separator {rest next : List Char}
    (found : afterSeparator? rest = some next) :
    ∃ gap separator, Gap gap ∧ (separator = [':', ':'] ∨ separator = ['.']) ∧
      rest = gap ++ (separator ++ next) := by
  rcases Option.or_eq_some_iff.mp found with colons | ⟨-, dot⟩
  · obtain ⟨gap, blank, split⟩ :=
      (skip_gap_eq_cons_iff (by decide)).mp (eat_word_eq_some_iff.mp colons)
    exact ⟨gap, [':', ':'], blank, Or.inl rfl, split⟩
  · obtain ⟨gap, blank, split⟩ := (eat_eq_some_iff (by decide)).mp dot
    exact ⟨gap, ['.'], blank, Or.inr rfl, split⟩

theorem Ahead.after_separator_eq_none {marks rest : List Char} (ahead : Ahead marks rest)
    (noColon : ':' ∉ marks) (noDot : '.' ∉ marks) : afterSeparator? rest = none := by
  unfold afterSeparator?
  rw [ahead.eat_eq_none noDot, Option.or_none]
  by_contra found
  obtain ⟨next, colons⟩ := Option.ne_none_iff_exists'.mp found
  have first : ':' ∈ (skipGap rest).head? := by
    rw [eat_word_eq_some_iff.mp colons]
    rfl
  exact noColon (ahead ':' first)

def EndsName (rest : List Char) : Prop :=
  ∀ character ∈ rest.head?, isNameChar character = false

theorem is_name_char_of_is_gap {character : Char} (blank : isGap character = true) :
    isNameChar character = false := by
  simp only [isGap, Bool.or_eq_true, beq_iff_eq] at blank
  rcases blank with (((rfl | rfl) | rfl) | rfl) | rfl <;> decide

theorem is_gap_of_is_name_char {character : Char} (inName : isNameChar character = true) :
    isGap character = false := by
  by_contra blank
  rw [is_name_char_of_is_gap (by simpa using blank)] at inName
  cases inName

theorem Ahead.ends_name {marks rest : List Char} (ahead : Ahead marks rest)
    (marksEnd : marks.any isNameChar = false) : EndsName rest := by
  intro character first
  cases rest with
  | nil => cases first
  | cons head others =>
      obtain rfl : head = character := Option.some.inj first
      by_cases blank : isGap head = true
      · exact is_name_char_of_is_gap blank
      · have isMark : head ∈ marks := by
          apply ahead head
          rw [skip_gap_cons (by simpa using blank)]
          rfl
        simpa using List.any_eq_false.mp marksEnd head isMark

theorem take_while_name {name rest : List Char}
    (named : ∀ character ∈ name, isNameChar character = true) (ends : EndsName rest) :
    (name ++ rest).takeWhile isNameChar = name ∧ (name ++ rest).dropWhile isNameChar = rest := by
  rw [List.takeWhile_append_of_pos named, List.dropWhile_append_of_pos named]
  cases rest with
  | nil => simp
  | cons character others =>
      have stops : isNameChar character = false := ends character rfl
      simp [stops]

theorem ends_name_drop_while (characters : List Char) :
    EndsName (characters.dropWhile isNameChar) := by
  have stopped := List.head?_dropWhile_not isNameChar characters
  intro character first
  rw [Option.mem_def.mp first] at stopped
  exact stopped

theorem IsIdentifier.exists_cons {name : List Char} (identifier : IsIdentifier name) :
    ∃ first others, name = first :: others ∧ isNameChar first = true ∧ first.isDigit = false := by
  obtain ⟨first, others, rfl⟩ := List.exists_cons_of_ne_nil identifier.nonempty
  exact ⟨first, others, rfl, identifier.named first List.mem_cons_self,
    identifier.noDigit first rfl⟩

theorem exists_verbatim (characters : List Char) :
    ∃ verbatim, (verbatim = [] ∨ verbatim = ['@']) ∧
      characters = verbatim ++ (Text.afterHead? ['@'] characters).getD characters := by
  cases after : Text.afterHead? ['@'] characters with
  | none => exact ⟨[], Or.inl rfl, rfl⟩
  | some rest => exact ⟨['@'], Or.inr rfl, after_head_eq_some_iff.mp after⟩

theorem read_name_eq_some_iff {characters name rest : List Char} :
    readName? characters = some (name, rest) ↔
      ∃ gap verbatim, Gap gap ∧ (verbatim = [] ∨ verbatim = ['@']) ∧ IsIdentifier name ∧
        EndsName rest ∧ characters = gap ++ (verbatim ++ (name ++ rest)) := by
  constructor
  · intro found
    obtain ⟨gap, blank, split⟩ := exists_gap characters
    obtain ⟨verbatim, marked, behind⟩ := exists_verbatim (skipGap characters)
    unfold readName? at found
    dsimp only at found
    split at found
    · cases found
    · next first others isName =>
        split at found
        · cases found
        · next notDigit =>
            cases found
            refine ⟨gap, verbatim, blank, marked, ⟨?_, ?_, ?_⟩, ends_name_drop_while _, ?_⟩
            · simp [isName]
            · exact List.all_eq_true.mp List.all_takeWhile
            · rw [isName]
              simpa using notDigit
            · rw [List.takeWhile_append_dropWhile, ← behind]
              exact split
  · rintro ⟨gap, verbatim, blank, marked, identifier, ends, rfl⟩
    obtain ⟨first, others, isName, inName, notDigit⟩ := identifier.exists_cons
    obtain ⟨taken, dropped⟩ := take_while_name identifier.named ends
    have start : (Text.afterHead? ['@'] (skipGap (gap ++ (verbatim ++ (name ++ rest))))).getD
        (skipGap (gap ++ (verbatim ++ (name ++ rest)))) = name ++ rest := by
      rw [skip_gap_append blank]
      rcases marked with rfl | rfl
      · subst isName
        have notBlank : isGap first = false := is_gap_of_is_name_char inName
        have notMark : '@' ≠ first := by
          rintro rfl
          exact absurd inName (by decide)
        simp [skip_gap_cons notBlank, Text.afterHead?, notMark]
      · simp [skip_gap_cons (show isGap '@' = false by decide), Text.afterHead?]
    unfold readName?
    dsimp only
    rw [start, taken, dropped, isName]
    simp [notDigit]

theorem read_suffixes_gap {gap : List Char} (blank : Gap gap) (array : Bool) (rest : List Char) :
    readSuffixes? false array (gap ++ rest) = readSuffixes? false array rest := by
  induction gap with
  | nil => rfl
  | cons character gap ih =>
      obtain ⟨here, later⟩ := List.forall_mem_cons.mp blank
      simp [readSuffixes?, here, ih later]

theorem read_suffixes_inside {inside : List Char} (unclosed : ']' ∉ inside) (array : Bool)
    (rest : List Char) :
    readSuffixes? true array (inside ++ ']' :: rest) = readSuffixes? false true rest := by
  induction inside with
  | nil => simp [readSuffixes?]
  | cons character inside ih =>
      obtain ⟨here, later⟩ := List.ne_and_not_mem_of_not_mem_cons unclosed
      simp [readSuffixes?, Ne.symm here, ih later]

theorem read_suffixes_ended {rest : List Char} (ends : Ahead [',', '>'] rest) (array : Bool) :
    readSuffixes? false array rest = some (array, skipGap rest) := by
  obtain ⟨gap, blank, split⟩ := exists_gap rest
  rw [split, read_suffixes_gap blank, ← split]
  cases found : skipGap rest with
  | nil => rfl
  | cons character others =>
      have closes : character = ',' ∨ character = '>' := by
        simpa using ends character (by rw [found]; rfl)
      rcases closes with rfl | rfl <;> rfl

/-- Suffixes are read up to the last of them, and the blanks behind it too. -/
theorem read_suffixes_of_spells {tail rest : List Char} {suffixes : List Suffix}
    (spelled : SpellsSuffixes tail suffixes) (ends : Ahead [',', '>'] rest) (array : Bool) :
    readSuffixes? false array (tail ++ rest) =
      some (array || suffixes.contains .brackets, skipGap rest) := by
  induction spelled generalizing array with
  | nil => simp [read_suffixes_ended ends]
  | question blank _ ih =>
      rw [List.append_assoc, read_suffixes_gap blank]
      simp [readSuffixes?, ih]
  | brackets blank unclosed _ ih =>
      rw [List.append_assoc, read_suffixes_gap blank, List.cons_append, List.append_assoc,
        List.cons_append]
      have opens : ∀ others, readSuffixes? false array ('[' :: others) =
          readSuffixes? true array others := by
        intro others
        simp [readSuffixes?, show isGap '[' = false by decide]
      rw [opens, read_suffixes_inside unclosed, ih]
      simp

theorem SpellsSuffixes.ahead {tail rest : List Char} {suffixes : List Suffix}
    (spelled : SpellsSuffixes tail suffixes) (ends : Ahead [',', '>'] rest) :
    Ahead ['?', '[', ',', '>'] (tail ++ rest) := by
  cases spelled with
  | nil => exact ends.mono (by simp)
  | question blank _ =>
      rw [List.append_assoc]
      exact ahead_mark blank (by decide) (by simp) _
  | brackets blank _ _ =>
      rw [List.append_assoc]
      exact ahead_mark blank (by decide) (by simp) _

theorem exists_inside_of_read_suffixes {array closed : Bool} {characters rest : List Char}
    (found : readSuffixes? true array characters = some (closed, rest)) :
    ∃ inside more, ']' ∉ inside ∧ characters = inside ++ ']' :: more ∧
      readSuffixes? false true more = some (closed, rest) := by
  induction characters generalizing array with
  | nil => simp [readSuffixes?] at found
  | cons character others ih =>
      by_cases closes : character = ']'
      · subst closes
        refine ⟨[], others, by simp, rfl, ?_⟩
        simpa [readSuffixes?] using found
      · have later : readSuffixes? true array others = some (closed, rest) := by
          simpa [readSuffixes?, closes] using found
        obtain ⟨inside, more, unclosed, split, after⟩ := ih later
        refine ⟨character :: inside, more, ?_, by rw [split]; rfl, after⟩
        simp [unclosed, Ne.symm closes]

/-- A blank before suffixes belongs to the first of them, or to what follows the last. -/
theorem exists_spells_cons {character : Char} (blank : isGap character = true)
    {tail gap : List Char} {suffixes : List Suffix} (spelled : SpellsSuffixes tail suffixes)
    (gapBehind : Gap gap) :
    ∃ longer after, SpellsSuffixes longer suffixes ∧ Gap after ∧
      character :: (tail ++ gap) = longer ++ after := by
  have more : ∀ others, Gap others → Gap (character :: others) := by
    intro others
    exact (show Gap [character] by simpa [Gap] using blank).append
  cases spelled with
  | nil => exact ⟨[], character :: gap, .nil, more gap gapBehind, rfl⟩
  | question before rest => exact ⟨_, gap, .question (more _ before) rest, gapBehind, rfl⟩
  | brackets before unclosed rest =>
      exact ⟨_, gap, .brackets (more _ before) unclosed rest, gapBehind, rfl⟩

theorem exists_spells_of_read_suffixes {array closed : Bool} {characters rest : List Char}
    (found : readSuffixes? false array characters = some (closed, rest)) :
    ∃ tail gap suffixes, characters = tail ++ (gap ++ rest) ∧ SpellsSuffixes tail suffixes ∧
      Gap gap ∧ closed = (array || suffixes.contains .brackets) := by
  -- brackets are read in one go, so the list gets shorter by more than its head
  induction size : characters.length using Nat.strongRecOn generalizing characters array with
  | ind bound ih =>
      cases characters with
      | nil =>
          cases found
          exact ⟨[], [], [], rfl, .nil, gap_nil, by simp⟩
      | cons character others =>
          have shorter : others.length < bound := by
            rw [← size]
            exact Nat.lt_succ_self _
          rw [readSuffixes?, if_neg Bool.false_ne_true] at found
          split at found
          · next skipped =>
              obtain ⟨tail, gap, suffixes, rfl, spelled, behind, isClosed⟩ :=
                ih _ shorter found rfl
              rcases Bool.or_eq_true_iff.mp skipped with blank | question
              · obtain ⟨longer, after, longerSpelled, afterBlank, split⟩ :=
                  exists_spells_cons blank spelled behind
                refine ⟨longer, after, suffixes, ?_, longerSpelled, afterBlank, isClosed⟩
                rw [← List.append_assoc, ← List.append_assoc, ← split]
                rfl
              · refine ⟨_, gap, _, ?_, .question gap_nil spelled, behind, by simpa using isClosed⟩
                rw [of_decide_eq_true question]
                rfl
          · split at found
            · next opens =>
                obtain ⟨inside, more, unclosed, rfl, after⟩ := exists_inside_of_read_suffixes found
                have smaller : more.length < bound := by
                  simp only [List.length_append, List.length_cons] at shorter
                  omega
                obtain ⟨tail, gap, suffixes, rfl, spelled, behind, isClosed⟩ :=
                  ih _ smaller after rfl
                refine ⟨_, gap, _, ?_, .brackets gap_nil unclosed spelled, behind,
                  by simpa using isClosed⟩
                simp [opens]
            · cases found
              exact ⟨[], [], [], rfl, .nil, gap_nil, by simp⟩

end ReleaseAudit.Types.TypeRef
