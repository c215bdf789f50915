import ReleaseAudit.Proofs.Types.Reading

/-!
# Spelling written types

A type is canonical when its name and the names in its arguments are dotted
identifiers. Exactly the canonical types can be read, and the spelling of a
canonical type is read as that type again.
-/

namespace ReleaseAudit.Types.TypeRef

set_option autoImplicit false

variable {admits : List Char → Prop}

/-- Identifiers joined by dots, with canonical arguments. -/
inductive Canonical : TypeRef → Prop
  | mk {names : List (List Char)} {args : List TypeRef} {array : Bool} (nonempty : names ≠ [])
      (identifiers : ∀ name ∈ names, IsIdentifier name)
      (canonical : ∀ arg ∈ args, Canonical arg) :
      Canonical ⟨String.intercalate "." (names.map String.ofList), args, array⟩

structure Segment.Canonical (segment : Segment) : Prop where
  identifier : IsIdentifier segment.identifier
  args : ∀ args ∈ segment.args, ∀ arg ∈ args, TypeRef.Canonical arg

theorem canonical_of_parts {segments : List Segment} (nonempty : segments ≠ [])
    (canonical : ∀ segment ∈ segments, segment.Canonical) (suffixes : List Suffix) :
    Canonical (ofParts segments suffixes) := by
  have names : segments.map (fun segment => String.ofList segment.identifier) =
      (segments.map Segment.identifier).map String.ofList := by
    rw [List.map_map]
    rfl
  unfold ofParts
  rw [names]
  refine .mk (by simpa using nonempty) ?_ ?_
  · intro name member
    obtain ⟨segment, inSegments, rfl⟩ := List.mem_map.mp member
    exact (canonical segment inSegments).identifier
  · intro arg member
    cases last : (segments.filterMap Segment.args).getLast? with
    | none =>
        rw [last] at member
        cases member
    | some args =>
        rw [last] at member
        obtain ⟨segment, inSegments, isArgs⟩ :=
          List.mem_filterMap.mp (List.mem_of_getLast? last)
        exact (canonical segment inSegments).args args isArgs arg member

mutual

theorem SpellsType.canonical {text : List Char} {written : TypeRef} :
    SpellsType admits text written → Canonical written
  | .mk _ _ spelled _ => canonical_of_parts spelled.canonical.1 spelled.canonical.2 _

theorem SpellsSegments.canonical {text : List Char} {segments : List Segment} :
    SpellsSegments admits text segments →
      segments ≠ [] ∧ ∀ segment ∈ segments, segment.Canonical
  | .last only => ⟨List.cons_ne_nil _ _, List.forall_mem_singleton.mpr only.canonical⟩
  | .cons first _ _ others =>
      ⟨List.cons_ne_nil _ _, List.forall_mem_cons.mpr ⟨first.canonical, others.canonical.2⟩⟩

theorem SpellsSegment.canonical {text : List Char} {segment : Segment} :
    SpellsSegment admits text segment → segment.Canonical
  | .bare _ _ named => ⟨named, by simp⟩
  | .generic _ _ named _ spelled => ⟨named, by simpa using spelled.canonical⟩

theorem SpellsArguments.canonical {text : List Char} {args : List TypeRef} :
    SpellsArguments admits text args → ∀ arg ∈ args, Canonical arg
  | .last only _ => List.forall_mem_singleton.mpr only.canonical
  | .cons first _ others => List.forall_mem_cons.mpr ⟨first.canonical, others.canonical⟩

end

theorem canonical_of_parse {text : String} {written : TypeRef}
    (found : parse? text = some written) : Canonical written := by
  obtain ⟨text, gap, -, spelled, -⟩ := parse_eq_some_iff_reads.mp found
  exact spelled.canonical

theorem spellings_eq_map (args : List TypeRef) :
    spelling.spellings args = args.map spelling := by
  induction args with
  | nil => rfl
  | cons written rest ih => rw [spelling.spellings, ih, List.map_cons]

def argumentText (args : List TypeRef) : List Char :=
  (", ".intercalate (args.map spelling)).toList ++ ['>']

def ownText (args : List TypeRef) : List Char :=
  if args.isEmpty then [] else '<' :: argumentText args

theorem to_list_spelling (name : String) (args : List TypeRef) (array : Bool) :
    (spelling ⟨name, args, array⟩).toList =
      (name.toList ++ ownText args) ++ if array then ['[', ']'] else [] := by
  rw [spelling, spellings_eq_map]
  cases args with
  | nil => cases array <;> simp [ownText]
  | cons first rest => cases array <;> simp [ownText, argumentText]

theorem SpellsType.gap_append {gap text : List Char} {written : TypeRef} (blank : Gap gap)
    (spelled : SpellsType admits text written) : SpellsType admits (gap ++ text) written := by
  cases spelled with
  | mk before start names ended =>
      rw [← List.append_assoc]
      exact .mk (blank.append before) start names ended

theorem SpellsArguments.gap_append {gap text : List Char} {args : List TypeRef} (blank : Gap gap)
    (spelled : SpellsArguments admits text args) : SpellsArguments admits (gap ++ text) args := by
  cases spelled with
  | last only before =>
      rw [← List.append_assoc]
      exact .last (only.gap_append blank) before
  | cons first before others =>
      rw [← List.append_assoc]
      exact .cons (first.gap_append blank) before others

theorem spells_arguments_argument_text {args : List TypeRef} (nonempty : args ≠ [])
    (spelled : ∀ arg ∈ args, SpellsType admits arg.spelling.toList arg) :
    SpellsArguments admits (argumentText args) args := by
  induction args with
  | nil => exact absurd rfl nonempty
  | cons first rest ih =>
      obtain ⟨here, later⟩ := List.forall_mem_cons.mp spelled
      cases rest with
      | nil =>
          have only : argumentText [first] = first.spelling.toList ++ ([] ++ ['>']) := by
            simp [argumentText]
          rw [only]
          exact .last here gap_nil
      | cons second rest =>
          have split : argumentText (first :: second :: rest) =
              first.spelling.toList ++ ([] ++ ',' :: ([' '] ++ argumentText (second :: rest))) := by
            simp [argumentText, String.intercalate_cons_cons]
          rw [split]
          have blank : Gap [' '] := by decide
          exact .cons here gap_nil ((ih (List.cons_ne_nil _ _) later).gap_append blank)

/-- The segments of a dotted name whose last part has the arguments. -/
def segmentsOf : List (List Char) → Option (List TypeRef) → List Segment
  | [], _ => []
  | [name], own => [⟨name, own⟩]
  | name :: second :: rest, own => ⟨name, none⟩ :: segmentsOf (second :: rest) own

theorem of_parts_segments_of {names : List (List Char)} (nonempty : names ≠ [])
    (own : Option (List TypeRef)) (suffixes : List Suffix) :
    ofParts (segmentsOf names own) suffixes =
      ⟨String.intercalate "." (names.map String.ofList), own.getD [],
        suffixes.contains .brackets⟩ := by
  have parts : ((segmentsOf names own).map fun segment => String.ofList segment.identifier) =
      names.map String.ofList ∧
      ((segmentsOf names own).filterMap Segment.args).getLast? = own := by
    induction names with
    | nil => exact absurd rfl nonempty
    | cons name rest ih =>
        cases rest with
        | nil => cases own <;> exact ⟨rfl, rfl⟩
        | cons second rest =>
            obtain ⟨names, last⟩ := ih (List.cons_ne_nil _ _)
            exact ⟨by rw [segmentsOf, List.map_cons, names]; rfl, by simpa [segmentsOf] using last⟩
  unfold ofParts
  rw [parts.1, parts.2]

theorem spells_segments_segments_of {names : List (List Char)} {own : Option (List TypeRef)}
    {behind : List Char} (nonempty : names ≠ [])
    (identifiers : ∀ name ∈ names, IsIdentifier name)
    (last : ∀ name, IsIdentifier name → SpellsSegment admits (name ++ behind) ⟨name, own⟩) :
    SpellsSegments admits
      ((String.intercalate "." (names.map String.ofList)).toList ++ behind)
      (segmentsOf names own) := by
  induction names with
  | nil => exact absurd rfl nonempty
  | cons name rest ih =>
      obtain ⟨here, later⟩ := List.forall_mem_cons.mp identifiers
      cases rest with
      | nil =>
          rw [List.map_singleton, String.intercalate_singleton, String.toList_ofList]
          exact .last (last name here)
      | cons second rest =>
          have split :
              (String.intercalate "." ((name :: second :: rest).map String.ofList)).toList ++
              behind = ([] ++ ([] ++ name)) ++ ([] ++ (['.'] ++
                ((String.intercalate "." ((second :: rest).map String.ofList)).toList ++
                  behind))) := by
            simp [String.intercalate_cons_cons]
          rw [split]
          exact .cons (.bare gap_nil (Or.inl rfl) here) gap_nil (Or.inr rfl)
            (ih (List.cons_ne_nil _ _) later)

theorem colon_not_mem_intercalate {separator : String} (plain : ':' ∉ separator.toList)
    {parts : List String} (parts_plain : ∀ part ∈ parts, ':' ∉ part.toList) :
    ':' ∉ (separator.intercalate parts).toList := by
  induction parts with
  | nil => simp
  | cons first rest ih =>
      obtain ⟨here, later⟩ := List.forall_mem_cons.mp parts_plain
      cases rest with
      | nil => simpa using here
      | cons second rest =>
          rw [String.intercalate_cons_cons]
          simp only [String.toList_append, List.mem_append, not_or]
          exact ⟨⟨here, plain⟩, ih later⟩

theorem IsIdentifier.colon_not_mem {name : List Char} (identifier : IsIdentifier name) :
    ':' ∉ name := by
  intro member
  exact absurd (identifier.named ':' member) (by decide)

theorem colon_not_mem_names {names : List (List Char)}
    (identifiers : ∀ name ∈ names, IsIdentifier name) :
    ':' ∉ (String.intercalate "." (names.map String.ofList)).toList := by
  apply colon_not_mem_intercalate (by decide)
  intro part member
  obtain ⟨name, inNames, rfl⟩ := List.mem_map.mp member
  rw [String.toList_ofList]
  exact (identifiers name inNames).colon_not_mem

theorem colon_not_mem_own_text {args : List TypeRef}
    (plain : ∀ arg ∈ args, ':' ∉ arg.spelling.toList) : ':' ∉ ownText args := by
  have inside : ':' ∉ (", ".intercalate (args.map spelling)).toList := by
    apply colon_not_mem_intercalate (by decide)
    intro part member
    obtain ⟨arg, inArgs, rfl⟩ := List.mem_map.mp member
    exact plain arg inArgs
  unfold ownText argumentText
  split
  · simp
  · simpa using inside

theorem wordless_of_colon_not_mem {characters : List Char} (plain : ':' ∉ characters) :
    Wordless characters := by
  rintro ⟨rest, first⟩
  apply plain
  apply (List.dropWhile_sublist isGap).subset
  rw [show characters.dropWhile isGap = globalWord ++ rest from first.symm]
  exact List.mem_append_left rest (by decide)

theorem spells_suffixes_brackets (array : Bool) :
    SpellsSuffixes (if array then ['[', ']'] else []) (if array then [.brackets] else []) := by
  cases array with
  | false => exact .nil
  | true =>
      have closed : ']' ∉ ([] : List Char) := by simp
      exact .brackets gap_nil closed .nil

theorem spells_segment_own_text {args : List TypeRef}
    (spelled : ∀ arg ∈ args, SpellsType admits arg.spelling.toList arg) :
    ∃ own, own.getD [] = args ∧ ∀ name, IsIdentifier name →
      SpellsSegment admits (name ++ ownText args) ⟨name, own⟩ := by
  cases args with
  | nil =>
      refine ⟨none, rfl, ?_⟩
      intro name identifier
      rw [show ownText [] = [] from rfl, List.append_nil]
      exact .bare gap_nil (Or.inl rfl) identifier
  | cons first rest =>
      refine ⟨some (first :: rest), rfl, ?_⟩
      intro name identifier
      exact .generic gap_nil (Or.inl rfl) identifier gap_nil
        (spells_arguments_argument_text (List.cons_ne_nil _ _) spelled)

/-- Without colons the word cannot come first, so that a spelling is read as it is meant. -/
theorem Canonical.spells {written : TypeRef} (canonical : Canonical written) :
    SpellsType Wordless written.spelling.toList written ∧ ':' ∉ written.spelling.toList := by
  induction canonical with
  | @mk names args array nonempty identifiers _ ih =>
      have plain : ':' ∉ (String.intercalate "." (names.map String.ofList)).toList ++
          ownText args := by
        rw [List.mem_append, not_or]
        exact ⟨colon_not_mem_names identifiers,
          colon_not_mem_own_text fun arg member => (ih arg member).2⟩
      obtain ⟨own, isOwn, segment⟩ := spells_segment_own_text fun arg member => (ih arg member).1
      have spelled := spells_segments_segments_of nonempty identifiers segment
      have whole := SpellsType.mk gap_nil (Or.inr ⟨rfl, wordless_of_colon_not_mem plain⟩) spelled
        (spells_suffixes_brackets array)
      rw [to_list_spelling]
      constructor
      · rw [of_parts_segments_of nonempty, isOwn] at whole
        cases array <;> exact whole
      · rw [List.mem_append, not_or]
        refine ⟨plain, ?_⟩
        cases array <;> decide

theorem parse_spelling {written : TypeRef} (canonical : Canonical written) :
    parse? written.spelling = some written := by
  rw [parse_eq_some_iff_reads]
  exact ⟨written.spelling.toList, [], (List.append_nil _).symm, canonical.spells.1, gap_nil⟩

/-- The written form that a text comes down to. -/
def normalForm? (text : String) : Option String :=
  (parse? text).map spelling

/-- Reading gives canonical types, and spelling and reading one gives it back. So the written form
that a text comes down to stands for the same type, and is its own written form. -/
theorem parse_spelling_canonical (text : String) (written : TypeRef) :
    (parse? text = some written → Canonical written) ∧
    (Canonical written → parse? written.spelling = some written) ∧
    (normalForm? text).bind parse? = parse? text ∧
    (normalForm? text).bind normalForm? = normalForm? text := by
  refine ⟨canonical_of_parse, parse_spelling, ?_, ?_⟩
  · unfold normalForm?
    cases found : parse? text with
    | none => rfl
    | some read => exact parse_spelling (canonical_of_parse found)
  · unfold normalForm?
    cases found : parse? text with
    | none => rfl
    | some read =>
        rw [Option.map_some, Option.bind_some, parse_spelling (canonical_of_parse found),
          Option.map_some]

/-- An array of a generic type whose name starts like the word, with a generic argument. -/
def nestedType : TypeRef :=
  ⟨"global.é_1", [⟨"A", [⟨"B", [], true⟩, ⟨"global", [], false⟩], false⟩], true⟩

theorem parse_spelling_canonical_nested :
    Canonical nestedType ∧ nestedType.spelling = "global.é_1<A<B[], global>>[]" ∧
    parse? "global.é_1<A<B[], global>>[]" = some nestedType := by
  have dotted : ∀ (names : List (List Char)) (name : String) (args : List TypeRef) (array : Bool),
      name = String.intercalate "." (names.map String.ofList) → names ≠ [] →
      (∀ part ∈ names, IsIdentifier part) → (∀ arg ∈ args, Canonical arg) →
      Canonical ⟨name, args, array⟩ := by
    rintro names name args array rfl nonempty identifiers canonical
    exact .mk nonempty identifiers canonical
  have array : Canonical ⟨"B", [], true⟩ :=
    dotted ["B".toList] _ _ _ (by decide +kernel) (by decide) (by decide) (by simp)
  have bare : Canonical ⟨"global", [], false⟩ :=
    dotted ["global".toList] _ _ _ (by decide +kernel) (by decide) (by decide) (by simp)
  have inner : Canonical ⟨"A", [⟨"B", [], true⟩, ⟨"global", [], false⟩], false⟩ :=
    dotted ["A".toList] _ _ _ (by decide +kernel) (by decide) (by decide) (by simp [array, bare])
  have canonical : Canonical nestedType :=
    dotted ["global".toList, "é_1".toList] _ _ _ (by decide +kernel) (by decide) (by decide)
      (by simp [inner])
  have spelled : nestedType.spelling = "global.é_1<A<B[], global>>[]" := by decide +kernel
  refine ⟨canonical, spelled, ?_⟩
  rw [← spelled]
  exact (parse_spelling_canonical "" nestedType).2.1 canonical

end ReleaseAudit.Types.TypeRef
