import Mathlib.Data.List.Perm.Subperm
import ReleaseAudit.Fixture.Matching

/-!
# Matching a line is optimal

Every expectation takes the first diagnostic that it can. That leaves as few
expectations and diagnostics over as any pairing does, because whoever takes a
diagnostic early takes one that is as good as any other to those who come later:
to an expectation with a name all its diagnostics are alike to everyone, and
those without a name come last.
-/

namespace ReleaseAudit.Fixture

set_option autoImplicit false

open Verdict (Diagnostic)

/-- Of the diagnostics that the first one accepts, the later one accepts all or none. -/
def GivesWay (first later : Expectation) : Prop :=
  ∀ taken left, first.accepts taken = true → first.accepts left = true →
    later.accepts taken = true → later.accepts left = true

/-- Expectations paired with diagnostics that they accept. Entries of either list are used at most
once; an entry that is listed twice can be used twice. -/
structure Pairing (expectations : List Expectation) (diagnostics : List Diagnostic) where
  pairs : List (Expectation × Diagnostic)
  accepted : ∀ pair ∈ pairs, pair.1.accepts pair.2 = true
  expected : (pairs.map Prod.fst).Subperm expectations
  reported : (pairs.map Prod.snd).Subperm diagnostics

namespace Pairing

variable {expectations : List Expectation} {diagnostics : List Diagnostic}

def size (pairing : Pairing expectations diagnostics) : Nat :=
  pairing.pairs.length

def Perfect (pairing : Pairing expectations diagnostics) : Prop :=
  pairing.size = expectations.length ∧ pairing.size = diagnostics.length

/-- What a pairing does not use, in any order. -/
def Leaves (pairing : Pairing expectations diagnostics) (leftover : Leftover) : Prop :=
  (leftover.missing ++ pairing.pairs.map Prod.fst).Perm expectations ∧
    (leftover.unclaimed ++ pairing.pairs.map Prod.snd).Perm diagnostics

def Largest (pairing : Pairing expectations diagnostics) : Prop :=
  ∀ other : Pairing expectations diagnostics, other.size ≤ pairing.size

theorem size_le_expectations (pairing : Pairing expectations diagnostics) :
    pairing.size ≤ expectations.length := by
  simpa [size] using pairing.expected.length_le

/-- The same pairs, out of lists that hold the same in another order or more. -/
def widen (pairing : Pairing expectations diagnostics) {more : List Expectation}
    {others : List Diagnostic} (expected : expectations.Subperm more)
    (reported : diagnostics.Subperm others) : Pairing more others where
  pairs := pairing.pairs
  accepted := pairing.accepted
  expected := pairing.expected.trans expected
  reported := pairing.reported.trans reported

def add (pairing : Pairing expectations diagnostics) {expectation : Expectation}
    {diagnostic : Diagnostic} (accepts : expectation.accepts diagnostic = true) :
    Pairing (expectation :: expectations) (diagnostic :: diagnostics) where
  pairs := (expectation, diagnostic) :: pairing.pairs
  accepted := List.forall_mem_cons.mpr ⟨accepts, pairing.accepted⟩
  expected := (List.subperm_cons expectation).mpr pairing.expected
  reported := (List.subperm_cons diagnostic).mpr pairing.reported

/-- Of items taken from a list, one is its first entry, or all are from the rest. -/
theorem subperm_cons_cases {Item Key : Type} [DecidableEq Key] {key : Item → Key}
    {items : List Item} {first : Key} {rest : List Key}
    (among : (items.map key).Subperm (first :: rest)) :
    (items.map key).Subperm rest ∨
      ∃ item others, items.Perm (item :: others) ∧ key item = first ∧
        (others.map key).Subperm rest := by
  by_cases taken : first ∈ items.map key
  · obtain ⟨item, member, isFirst⟩ := List.mem_map.mp taken
    obtain ⟨before, after, rfl⟩ := List.append_of_mem member
    have front : (before ++ item :: after).Perm (item :: (before ++ after)) := List.perm_middle
    refine Or.inr ⟨item, before ++ after, front, isFirst, ?_⟩
    rw [(front.map key).subperm_right, List.map_cons, isFirst, List.subperm_cons] at among
    exact among
  · have erased := among.erase first
    rw [List.erase_of_not_mem taken, List.erase_cons_head] at erased
    exact Or.inl erased

/-- Taking a diagnostic costs the others at most one pair: who had it gets the diagnostic that the
taker had. -/
theorem exists_without {expectation : Expectation} {rest : List Expectation}
    {diagnostic : Diagnostic} {others : List Diagnostic}
    (accepts : expectation.accepts diagnostic = true)
    (givesWay : ∀ later ∈ rest, GivesWay expectation later)
    (pairing : Pairing (expectation :: rest) (diagnostic :: others)) :
    ∃ smaller : Pairing rest others, pairing.size ≤ smaller.size + 1 := by
  obtain ⟨pairs, accepted, expected, reported⟩ := pairing
  rcases subperm_cons_cases expected with unpaired | ⟨⟨_, had⟩, left, isPairs, rfl, leftExpected⟩
  · rcases subperm_cons_cases reported with untaken | ⟨pair, left, isPairs, -, leftReported⟩
    · exact ⟨⟨pairs, accepted, unpaired, untaken⟩, Nat.le_succ _⟩
    · -- The taker had nothing; whoever had the diagnostic goes without.
      refine ⟨⟨left, ?_, ?_, leftReported⟩, Nat.le_of_eq isPairs.length_eq⟩
      · intro other member
        exact accepted other (isPairs.mem_iff.mpr (List.mem_cons_of_mem pair member))
      · rw [(isPairs.map Prod.fst).subperm_right] at unpaired
        exact (List.sublist_cons_self pair.1 (left.map Prod.fst)).subperm.trans unpaired
  · have leftAccepted : ∀ pair ∈ left, pair.1.accepts pair.2 = true := by
      intro pair member
      exact accepted pair (isPairs.mem_iff.mpr (List.mem_cons_of_mem _ member))
    rw [(isPairs.map Prod.snd).subperm_right, List.map_cons] at reported
    have leftReported := (List.sublist_cons_self had (left.map Prod.snd)).subperm.trans reported
    rcases subperm_cons_cases leftReported with
      untaken | ⟨⟨later, _⟩, last, isLeft, rfl, lastReported⟩
    · exact ⟨⟨left, leftAccepted, leftExpected, untaken⟩, Nat.le_of_eq isPairs.length_eq⟩
    · -- Taker and loser change diagnostics, which is where the loser must give way.
      have laterAccepts : later.accepts had = true := by
        have inRest : later ∈ rest := by
          apply leftExpected.subset
          rw [(isLeft.map Prod.fst).mem_iff]
          exact List.mem_cons_self
        exact givesWay later inRest _ had accepts
          (accepted _ (isPairs.mem_iff.mpr List.mem_cons_self))
          (leftAccepted _ (isLeft.mem_iff.mpr List.mem_cons_self))
      refine ⟨⟨(later, had) :: last, ?_, ?_, ?_⟩, ?_⟩
      · refine List.forall_mem_cons.mpr ⟨laterAccepts, ?_⟩
        intro pair member
        exact leftAccepted pair (isLeft.mem_iff.mpr (List.mem_cons_of_mem _ member))
      · rwa [(isLeft.map Prod.fst).subperm_right] at leftExpected
      · have swapped := ((isLeft.map Prod.snd).cons had).trans (List.Perm.swap _ _ _)
        rwa [swapped.subperm_right, List.subperm_cons] at reported
      · have lengths := isPairs.length_eq
        have shorter := isLeft.length_eq
        simp only [size, List.length_cons] at lengths shorter ⊢
        omega

end Pairing

theorem Expectation.accepts_iff {expectation : Expectation} {diagnostic : Diagnostic} :
    expectation.accepts diagnostic = true ↔
      expectation.holder = diagnostic.holder ∧
        ∀ name ∈ expectation.name, diagnostic.variableName = some name := by
  cases isName : expectation.name <;> simp [Expectation.accepts, isName]

/-- To an expectation with a name, all diagnostics that it accepts are the same to everyone. -/
theorem gives_way_of_name {first : Expectation} (named : first.name.isSome = true)
    (later : Expectation) : GivesWay first later := by
  intro taken left takenBy leftBy takenLater
  obtain ⟨name, isName⟩ := Option.isSome_iff_exists.mp named
  rw [Expectation.accepts_iff] at takenBy leftBy takenLater ⊢
  have sameName : taken.variableName = left.variableName :=
    (takenBy.2 name isName).trans (leftBy.2 name isName).symm
  rw [← leftBy.1, takenBy.1, ← sameName]
  exact takenLater

theorem gives_way_of_no_name (first : Expectation) {later : Expectation}
    (unnamed : later.name.isNone = true) : GivesWay first later := by
  intro taken left takenBy leftBy takenLater
  rw [Expectation.accepts_iff] at takenBy leftBy takenLater ⊢
  rw [← leftBy.1, takenBy.1, Option.isNone_iff_eq_none.mp unnamed]
  exact ⟨takenLater.1, by simp⟩

theorem pairwise_named_first (expectations : List Expectation) :
    (namedFirst expectations).Pairwise GivesWay := by
  unfold namedFirst
  rw [List.pairwise_append]
  refine ⟨?_, ?_, ?_⟩
  · rw [List.pairwise_filter]
    exact List.pairwise_of_forall fun _ later named _ => gives_way_of_name named later
  · rw [List.pairwise_filter]
    exact List.pairwise_of_forall fun first _ _ unnamed => gives_way_of_no_name first unnamed
  · intro first member later _
    exact gives_way_of_name (List.mem_filter.mp member).2 later

theorem named_first_perm (expectations : List Expectation) :
    (namedFirst expectations).Perm expectations := by
  have rest : (expectations.filter fun expectation => expectation.name.isNone) =
      expectations.filter fun expectation => !expectation.name.isSome := by
    simp
  unfold namedFirst
  rw [rest]
  exact List.filter_append_perm _ expectations

/-- The claims make a pairing, and none is larger. -/
theorem exists_largest_claim_all {expectations : List Expectation}
    (ordered : expectations.Pairwise GivesWay) (diagnostics : List Diagnostic) :
    ∃ pairing : Pairing expectations diagnostics,
      pairing.Largest ∧ pairing.Leaves (claimAll expectations diagnostics) := by
  fun_induction claimAll expectations diagnostics with
  | case1 diagnostics =>
      refine ⟨⟨[], by simp, List.Subperm.refl _, List.nil_subperm⟩, ?_, by simp [Pairing.Leaves]⟩
      intro other
      exact other.size_le_expectations
  | case2 expectation rest diagnostics found ih =>
      obtain ⟨givesWay, restOrdered⟩ := List.pairwise_cons.mp ordered
      obtain ⟨inner, largest, missing, unclaimed⟩ := ih restOrdered
      obtain ⟨candidate, isCandidate, fits⟩ := List.any_eq_true.mp found
      obtain ⟨diagnostic, before, after, -, accepts, isSplit, isErased⟩ :=
        List.exists_of_eraseP isCandidate fits
      have front : diagnostics.Perm
          (diagnostic :: diagnostics.eraseP expectation.accepts) := by
        rw [isErased, isSplit]
        exact List.perm_middle
      refine ⟨(inner.add accepts).widen (List.Subperm.refl _) front.symm.subperm, ?_, ?_, ?_⟩
      · intro other
        obtain ⟨smaller, atMost⟩ := Pairing.exists_without accepts givesWay
          (other.widen (List.Subperm.refl _) front.subperm)
        exact Nat.le_trans atMost (Nat.succ_le_succ (largest smaller))
      · exact List.perm_middle.trans (missing.cons expectation)
      · exact (List.perm_middle.trans (unclaimed.cons diagnostic)).trans front.symm
  | case3 expectation rest diagnostics unfound later ih =>
      -- Nothing is accepted, so no pairing has this expectation either.
      obtain ⟨inner, largest, missing, unclaimed⟩ := ih (List.pairwise_cons.mp ordered).2
      refine ⟨inner.widen (List.sublist_cons_self _ _).subperm (List.Subperm.refl _), ?_,
        missing.cons expectation, unclaimed⟩
      intro other
      rcases Pairing.subperm_cons_cases other.expected with
        unpaired | ⟨⟨_, had⟩, left, isPairs, rfl, -⟩
      · exact largest ⟨other.pairs, other.accepted, unpaired, other.reported⟩
      · have inPairs := isPairs.mem_iff.mpr List.mem_cons_self
        refine absurd (List.any_eq_true.mpr ⟨had, ?_, other.accepted _ inPairs⟩) unfound
        exact other.reported.subset (List.mem_map_of_mem inPairs)

def Mismatch.isMissing : Mismatch → Bool
  | missing _ => true
  | unexpected _ _ _ => false

def Leftover.mismatches (leftover : Leftover) : List Mismatch :=
  leftover.missing.map .missing ++ leftover.unclaimed.map .ofDiagnostic

theorem Leftover.count_p_missing (leftover : Leftover) :
    leftover.mismatches.countP Mismatch.isMissing = leftover.missing.length := by
  simp [mismatches, List.countP_map, Function.comp_def, Mismatch.isMissing, Mismatch.ofDiagnostic]

theorem Leftover.count_p_unexpected (leftover : Leftover) :
    (leftover.mismatches.countP fun mismatch => !mismatch.isMissing) =
      leftover.unclaimed.length := by
  simp [mismatches, List.countP_map, Function.comp_def, Mismatch.isMissing, Mismatch.ofDiagnostic]

theorem Leftover.mismatches_eq_nil_iff {leftover : Leftover} :
    leftover.mismatches = [] ↔
      leftover.missing.length = 0 ∧ leftover.unclaimed.length = 0 := by
  simp [mismatches]

variable {expectations : List Expectation} {diagnostics : List Diagnostic}

theorem Pairing.Largest.size_eq {pairing : Pairing expectations diagnostics}
    (largest : pairing.Largest) {others : List Expectation} {reports : List Diagnostic}
    {other : Pairing others reports} (otherLargest : other.Largest)
    (sameExpected : expectations.Perm others) (sameReported : diagnostics.Perm reports) :
    pairing.size = other.size := by
  have atMost := otherLargest (pairing.widen sameExpected.subperm sameReported.subperm)
  have atLeast := largest (other.widen sameExpected.symm.subperm sameReported.symm.subperm)
  exact Nat.le_antisymm atMost atLeast

theorem Pairing.Leaves.missing_length {pairing : Pairing expectations diagnostics}
    {leftover : Leftover} (leaves : pairing.Leaves leftover) :
    leftover.missing.length + pairing.size = expectations.length := by
  simpa [Pairing.size] using leaves.1.length_eq

theorem Pairing.Leaves.unclaimed_length {pairing : Pairing expectations diagnostics}
    {leftover : Leftover} (leaves : pairing.Leaves leftover) :
    leftover.unclaimed.length + pairing.size = diagnostics.length := by
  simpa [Pairing.size] using leaves.2.length_eq

theorem exists_largest_match_line (expectations : List Expectation)
    (diagnostics : List Diagnostic) :
    ∃ pairing : Pairing expectations diagnostics, pairing.Largest ∧
      ∃ leftover, pairing.Leaves leftover ∧
        matchLine expectations diagnostics = leftover.mismatches := by
  have sameExpected := named_first_perm expectations
  obtain ⟨inner, largest, missing, unclaimed⟩ :=
    exists_largest_claim_all (pairwise_named_first expectations) diagnostics
  refine ⟨inner.widen sameExpected.subperm (List.Subperm.refl _), ?_,
    claimAll (namedFirst expectations) diagnostics,
    ⟨missing.trans sameExpected, unclaimed⟩, rfl⟩
  intro other
  exact largest (other.widen sameExpected.symm.subperm (List.Subperm.refl _))

/-- The mismatches of a line are what a largest pairing leaves over, so there are as few as can be:
none exactly if a perfect pairing exists, and as many in whatever order the lists are. -/
theorem match_line_optimal (expectations : List Expectation) (diagnostics : List Diagnostic) :
    (∃ pairing : Pairing expectations diagnostics, pairing.Largest ∧
      (∃ leftover, pairing.Leaves leftover ∧
        matchLine expectations diagnostics = leftover.mismatches) ∧
      (matchLine expectations diagnostics).countP Mismatch.isMissing =
        expectations.length - pairing.size ∧
      ((matchLine expectations diagnostics).countP fun mismatch => !mismatch.isMissing) =
        diagnostics.length - pairing.size) ∧
    (matchLine expectations diagnostics = [] ↔
      ∃ pairing : Pairing expectations diagnostics, pairing.Perfect) ∧
    ∀ others reports, expectations.Perm others → diagnostics.Perm reports →
      (matchLine expectations diagnostics).countP Mismatch.isMissing =
        (matchLine others reports).countP Mismatch.isMissing ∧
      ((matchLine expectations diagnostics).countP fun mismatch => !mismatch.isMissing) =
        (matchLine others reports).countP fun mismatch => !mismatch.isMissing := by
  obtain ⟨pairing, largest, leftover, leaves, isLine⟩ :=
    exists_largest_match_line expectations diagnostics
  have missing := leaves.missing_length
  have unclaimed := leaves.unclaimed_length
  rw [isLine, leftover.count_p_missing, leftover.count_p_unexpected]
  refine ⟨⟨pairing, largest, ⟨leftover, leaves, rfl⟩, by omega, by omega⟩, ?_, ?_⟩
  · rw [Leftover.mismatches_eq_nil_iff]
    constructor
    · intro nothingLeft
      exact ⟨pairing, by omega, by omega⟩
    · rintro ⟨perfect, allExpected, allReported⟩
      have atLeast := largest perfect
      omega
  · intro others reports sameExpected sameReported
    obtain ⟨other, otherLargest, otherLeftover, otherLeaves, isOther⟩ :=
      exists_largest_match_line others reports
    have size := largest.size_eq otherLargest sameExpected sameReported
    rw [isOther, otherLeftover.count_p_missing, otherLeftover.count_p_unexpected]
    have otherMissing := otherLeaves.missing_length
    have otherUnclaimed := otherLeaves.unclaimed_length
    have expectedLength := sameExpected.length_eq
    have reportedLength := sameReported.length_eq
    exact ⟨by omega, by omega⟩

def unreleasedLocal (name : String) : Diagnostic where
  id := "unreleased"
  severity := .warning
  holder := .localVariable
  origin := .objectCreation
  location := ⟨"Program.cs", 0, 0, 0, 0, 0, 0⟩
  variableName := some name
  typeName := "Stream"

/-- The expectation of any local comes first and could take the one that another asks for. -/
theorem match_line_optimal_any_before_named :
    let any : Expectation := ⟨.localVariable, none, 0, "local"⟩
    let named : Expectation := ⟨.localVariable, some "log", 0, "local: log"⟩
    let line := matchLine [any, named] [unreleasedLocal "log", unreleasedLocal "file"]
    let swapped := matchLine [named, any] [unreleasedLocal "file", unreleasedLocal "log"]
    line = [] ∧ line.countP Mismatch.isMissing = swapped.countP Mismatch.isMissing ∧
      (line.countP fun mismatch => !mismatch.isMissing) =
        swapped.countP fun mismatch => !mismatch.isMissing :=
  ⟨by decide,
    (match_line_optimal _ _).2.2 _ _ (List.Perm.swap _ _ _) (List.Perm.swap _ _ _)⟩

end ReleaseAudit.Fixture
