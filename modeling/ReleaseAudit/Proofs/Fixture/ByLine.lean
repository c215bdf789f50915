import ReleaseAudit.Fixture.Verification

/-!
# Expectations gathered by line

The comments of a document are taken in one after the other. Whatever lines they
point to, the expectations held for a line are in the end those that were stated
for it, in the order of the comments.
-/

namespace ReleaseAudit.Fixture

set_option autoImplicit false

open Source (Document Node)

def statedBy (document : Document) (comment : Node) : List Expectation :=
  match Text.dropHead? Expectation.marker comment.text with
  | none => []
  | some text =>
      match Expectation.parseComment (document.firstRow comment) text with
      | .ok (_, added) => added
      | .error _ => []

/-- What the comments of a document state, comment by comment. -/
def stated (document : Document) : List Expectation :=
  (document.root.descendantsOf .comment).flatMap (statedBy document)

def isReadable (document : Document) (comment : Node) : Bool :=
  (Text.dropHead? Expectation.marker comment.text).all fun text =>
    (Expectation.parseComment (document.firstRow comment) text).isOk

namespace Expectation

theorem line_of_parse_one {line : Nat} {text : String} {expectation : Expectation}
    (parsed : parseOne line text = .ok expectation) : expectation.line = line := by
  unfold parseOne at parsed
  dsimp only at parsed
  split at parsed
  · cases parsed
  · split at parsed
    · cases parsed
    · split at parsed
      · cases parsed
      · cases parsed
        rfl

theorem line_of_map_m_parse_one {line : Nat} {parts : List String} {read : List Expectation}
    (parsed : parts.mapM (parseOne line) = .ok read) :
    ∀ expectation ∈ read, expectation.line = line := by
  induction parts generalizing read with
  | nil =>
      cases parsed
      simp
  | cons part rest ih =>
      rw [List.mapM_cons] at parsed
      cases first : parseOne line part with
      | error error =>
          rw [first] at parsed
          cases parsed
      | ok head =>
          rw [first] at parsed
          cases others : rest.mapM (parseOne line) with
          | error error =>
              rw [others] at parsed
              cases parsed
          | ok tail =>
              rw [others] at parsed
              cases parsed
              intro expectation member
              rcases List.mem_cons.mp member with rfl | later
              · exact line_of_parse_one first
              · exact ih others expectation later

theorem line_of_parse_comment {row line : Nat} {text : String} {added : List Expectation}
    (parsed : parseComment row text = .ok (line, added)) :
    ∀ expectation ∈ added, expectation.line = line := by
  unfold parseComment at parsed
  dsimp only at parsed
  split at parsed
  · cases content : parseContent (row - (splitCarets text).1) (splitCarets text).2 with
    | error error =>
        rw [content] at parsed
        cases parsed
    | ok read =>
        rw [content] at parsed
        cases parsed
        exact line_of_map_m_parse_one content
  · cases parsed

end Expectation

namespace Expectations

def Ascending (entries : List (Nat × List Expectation)) : Prop :=
  entries.Pairwise fun earlier later => earlier.1 < later.1

theorem fst_of_mem_add_to {line : Nat} {added : List Expectation}
    {entries : List (Nat × List Expectation)} :
    ∀ entry ∈ addTo line added entries, entry.1 = line ∨ ∃ old ∈ entries, old.1 = entry.1 := by
  induction entries with
  | nil => simp [addTo]
  | cons head rest ih =>
      intro entry member
      unfold addTo at member
      split at member
      · rcases List.mem_cons.mp member with rfl | later
        · exact Or.inl rfl
        · exact Or.inr ⟨entry, List.mem_cons_of_mem head later, rfl⟩
      · split at member
        · rcases List.mem_cons.mp member with rfl | later
          · exact Or.inl rfl
          · exact Or.inr ⟨entry, later, rfl⟩
        · rcases List.mem_cons.mp member with rfl | later
          · exact Or.inr ⟨entry, List.mem_cons_self, rfl⟩
          · rcases ih entry later with isLine | ⟨old, before, same⟩
            · exact Or.inl isLine
            · exact Or.inr ⟨old, List.mem_cons_of_mem head before, same⟩

theorem ascending_add_to {line : Nat} {added : List Expectation}
    {entries : List (Nat × List Expectation)} (ascending : Ascending entries) :
    Ascending (addTo line added entries) := by
  induction entries with
  | nil => simp [addTo, Ascending]
  | cons head rest ih =>
      obtain ⟨first, others⟩ := List.pairwise_cons.mp ascending
      unfold addTo
      split
      · next same =>
          subst same
          exact List.pairwise_cons.mpr ⟨first, others⟩
      · next differs =>
          split
          · next less =>
              apply List.pairwise_cons.mpr
              refine ⟨?_, ascending⟩
              intro entry member
              rcases List.mem_cons.mp member with rfl | later
              · exact less
              · exact Nat.lt_trans less (first entry later)
          · next notLess =>
              apply List.pairwise_cons.mpr
              refine ⟨?_, ih others⟩
              intro entry member
              rcases fst_of_mem_add_to entry member with isLine | ⟨old, before, same⟩
              · omega
              · rw [← same]
                exact first old before

theorem get_cons_self (line : Nat) (held : List Expectation)
    (rest : List (Nat × List Expectation)) : get ⟨(line, held) :: rest⟩ line = held := by
  simp [get]

theorem get_cons_of_ne {line other : Nat} (differs : line ≠ other) (held : List Expectation)
    (rest : List (Nat × List Expectation)) :
    get ⟨(other, held) :: rest⟩ line = get ⟨rest⟩ line := by
  simp [get, List.lookup_cons, beq_eq_false_iff_ne.mpr differs]

theorem get_eq_nil_of_not_mem {expectations : Expectations} {line : Nat}
    (absent : line ∉ expectations.lines) : expectations.get line = [] := by
  obtain ⟨entries⟩ := expectations
  induction entries with
  | nil => rfl
  | cons head rest ih =>
      obtain ⟨first, held⟩ := head
      rw [lines, List.map_cons, List.mem_cons, not_or] at absent
      rw [get_cons_of_ne absent.1]
      exact ih absent.2

theorem get_add {expectations : Expectations} (ascending : Ascending expectations.byLine)
    (line : Nat) (added : List Expectation) (other : Nat) :
    (expectations.add line added).get other =
      expectations.get other ++ if other = line then added else [] := by
  obtain ⟨entries⟩ := expectations
  unfold add
  dsimp only
  induction entries with
  | nil =>
      unfold addTo
      by_cases here : other = line
      · rw [if_pos here, here, get_cons_self]
        rfl
      · rw [if_neg here, get_cons_of_ne here]
        rfl
  | cons head rest ih =>
      obtain ⟨ahead, others⟩ := List.pairwise_cons.mp ascending
      obtain ⟨first, held⟩ := head
      unfold addTo
      dsimp only at ahead ⊢
      split
      · next same =>
          subst same
          by_cases here : other = line
          · rw [if_pos here, here, get_cons_self, get_cons_self]
          · rw [if_neg here, get_cons_of_ne here, get_cons_of_ne here, List.append_nil]
      · next differs =>
          split
          · next less =>
              by_cases here : other = line
              · have absent : line ∉ lines ⟨(first, held) :: rest⟩ := by
                  intro listed
                  obtain ⟨entry, member, same⟩ := List.mem_map.mp listed
                  rcases List.mem_cons.mp member with rfl | later
                  · exact differs same.symm
                  · have := ahead entry later
                    omega
                rw [if_pos here, here, get_cons_self, get_eq_nil_of_not_mem absent]
                rfl
              · rw [if_neg here, get_cons_of_ne here, List.append_nil]
          · by_cases here : other = first
            · have notLine : other ≠ line := by omega
              rw [if_neg notLine, here, get_cons_self, get_cons_self, List.append_nil]
            · rw [get_cons_of_ne here, get_cons_of_ne here]
              exact ih others

theorem get_keep (expectations : Expectations) (condition : Nat → Bool) (line : Nat) :
    (expectations.keep condition).get line =
      if condition line then expectations.get line else [] := by
  obtain ⟨entries⟩ := expectations
  unfold keep
  dsimp only
  induction entries with
  | nil => simp [get]
  | cons head rest ih =>
      obtain ⟨first, held⟩ := head
      rw [List.filter_cons]
      by_cases here : line = first
      · subst here
        by_cases kept : condition line = true
        · rw [if_pos kept, if_pos kept, get_cons_self, get_cons_self]
        · rw [if_neg kept, ih, if_neg kept, if_neg kept]
      · rw [get_cons_of_ne here, ← ih]
        split
        · rw [get_cons_of_ne here]
        · rfl

theorem get_eq_nil_of_is_empty {expectations : Expectations}
    (none : expectations.isEmpty = true) (line : Nat) : expectations.get line = [] := by
  unfold isEmpty at none
  simp [get, List.isEmpty_iff.mp none]

theorem filter_line_eq {line : Nat} {added : List Expectation}
    (lines : ∀ expectation ∈ added, expectation.line = line) (other : Nat) :
    (added.filter fun expectation => expectation.line == other) =
      if other = line then added else [] := by
  split
  · next same =>
      apply List.filter_eq_self.mpr
      intro expectation member
      rw [lines expectation member, same]
      exact beq_self_eq_true line
  · next differs =>
      apply List.filter_eq_nil_iff.mpr
      intro expectation member
      rw [lines expectation member]
      simp [Ne.symm differs]

theorem add_comment_of_readable {document : Document} {comment : Node}
    (readable : isReadable document comment = true) {read : Expectations × List ExpectationError}
    (ascending : Ascending read.1.byLine) :
    (addComment document read comment).2 = read.2 ∧
      Ascending (addComment document read comment).1.byLine ∧
      ∀ line, (addComment document read comment).1.get line = read.1.get line ++
        (statedBy document comment).filter fun expectation => expectation.line == line := by
  unfold isReadable at readable
  unfold addComment statedBy
  cases found : Text.dropHead? Expectation.marker comment.text with
  | none => exact ⟨rfl, ascending, by simp⟩
  | some text =>
      rw [found, Option.all_some] at readable
      dsimp only
      cases parsed : Expectation.parseComment (document.firstRow comment) text with
      | error error =>
          rw [parsed] at readable
          cases readable
      | ok read =>
          obtain ⟨line, added⟩ := read
          refine ⟨rfl, ascending_add_to ascending, ?_⟩
          intro other
          dsimp only
          rw [get_add ascending, filter_line_eq (Expectation.line_of_parse_comment parsed)]

theorem foldl_add_comment {document : Document} {comments : List Node}
    (readable : ∀ comment ∈ comments, isReadable document comment = true)
    {read : Expectations × List ExpectationError} (ascending : Ascending read.1.byLine) :
    (comments.foldl (addComment document) read).2 = read.2 ∧
      ∀ line, (comments.foldl (addComment document) read).1.get line = read.1.get line ++
        (comments.flatMap (statedBy document)).filter
          fun expectation => expectation.line == line := by
  induction comments generalizing read with
  | nil => simp
  | cons comment rest ih =>
      obtain ⟨noError, stillAscending, added⟩ :=
        add_comment_of_readable (readable comment List.mem_cons_self) ascending
      obtain ⟨noErrors, later⟩ :=
        ih (fun other member => readable other (List.mem_cons_of_mem comment member))
          stillAscending
      rw [List.foldl_cons]
      refine ⟨noErrors.trans noError, ?_⟩
      intro line
      rw [later line, added line, List.flatMap_cons, List.filter_append, List.append_assoc]

/-- The expectations held for a line are those that were stated for it. -/
theorem get_of_document {document : Document}
    (readable : ∀ comment ∈ document.root.descendantsOf .comment,
      isReadable document comment = true) :
    (ofDocument document).2 = [] ∧
      ∀ line, (ofDocument document).1.get line =
        (stated document).filter fun expectation => expectation.line == line :=
  foldl_add_comment readable List.Pairwise.nil

end Expectations

end ReleaseAudit.Fixture
