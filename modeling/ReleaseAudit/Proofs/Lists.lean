import Mathlib.Data.List.Forall2

/-!
# Lists

Facts about lists that several developments share: asking every entry of a list
for an answer that it may not have, and looking up keys.
-/

namespace ReleaseAudit.Lists

set_option autoImplicit false

section Answers

variable {α β : Type} {ask : α → Option β}

theorem map_m_eq_some_iff {entries : List α} {answers : List β} :
    entries.mapM ask = some answers ↔
      List.Forall₂ (fun entry answer => ask entry = some answer) entries answers := by
  induction entries generalizing answers with
  | nil => simp [eq_comm]
  | cons entry rest ih =>
      rw [List.mapM_cons, List.forall₂_cons_left_iff]
      simp only [Option.bind_eq_bind, Option.bind_eq_some_iff, Option.pure_def, Option.some.injEq,
        ih]
      constructor
      · rintro ⟨answer, isAnswer, later, answered, rfl⟩
        exact ⟨answer, later, isAnswer, answered, rfl⟩
      · rintro ⟨answer, later, isAnswer, answered, rfl⟩
        exact ⟨answer, isAnswer, later, answered, rfl⟩

theorem map_m_eq_none_iff {entries : List α} :
    entries.mapM ask = none ↔ ∃ entry ∈ entries, ask entry = none := by
  induction entries with
  | nil => simp
  | cons entry rest ih =>
      rw [List.mapM_cons]
      cases answered : ask entry with
      | none => simp [answered]
      | some answer => cases later : rest.mapM ask <;> simp [answered, ← ih, later]

theorem exists_left_of_mem {related : α → β → Prop} {entries : List α} {answers : List β}
    (paired : List.Forall₂ related entries answers) {answer : β} (member : answer ∈ answers) :
    ∃ entry ∈ entries, related entry answer := by
  induction paired with
  | nil => cases member
  | @cons entry answer' rest later first _ ih =>
      rcases List.mem_cons.mp member with rfl | inLater
      · exact ⟨entry, List.mem_cons_self, first⟩
      · obtain ⟨found, listed, holds⟩ := ih inLater
        exact ⟨found, List.mem_cons_of_mem entry listed, holds⟩

theorem map_m_flatten_eq_some_iff {ask : α → Option (List β)} {entries : List α}
    {found : List β} :
    (entries.mapM ask).map List.flatten = some found ↔
      (∀ entry ∈ entries, (ask entry).isSome = true) ∧
        (entries.flatMap fun entry => (ask entry).getD []) = found := by
  rw [Option.map_eq_some_iff]
  simp only [map_m_eq_some_iff]
  induction entries generalizing found with
  | nil => simp
  | cons entry rest ih =>
      simp only [List.forall₂_cons_left_iff, List.forall_mem_cons, List.flatMap_cons]
      cases answered : ask entry with
      | none => simp
      | some share =>
          constructor
          · rintro ⟨_, ⟨_, later, same, paired, rfl⟩, rfl⟩
            cases same
            obtain ⟨ended, isLater⟩ := ih.mp ⟨later, paired, rfl⟩
            exact ⟨⟨rfl, ended⟩, by simp [isLater]⟩
          · rintro ⟨⟨-, ended⟩, rfl⟩
            obtain ⟨later, paired, isLater⟩ := ih.mpr ⟨ended, rfl⟩
            exact ⟨share :: later, ⟨share, later, rfl, paired, rfl⟩, by simp [isLater]⟩

end Answers

section Keys

variable {Key α : Type} [DecidableEq Key] {entries : List (Key × α)} {key : Key}

theorem lookup_cons_ite (key : Key) (entry : Key × α) (rest : List (Key × α)) :
    (entry :: rest).lookup key = if key = entry.1 then some entry.2 else rest.lookup key := by
  rw [List.lookup_cons]
  by_cases here : key = entry.1
  · simp [here]
  · have other : (key == entry.1) = false := by simpa using here
    rw [other, if_neg here]

theorem lookup_eq_some_iff_mem
    (distinct : entries.Pairwise fun first second => first.1 ≠ second.1) {value : α} :
    entries.lookup key = some value ↔ (key, value) ∈ entries := by
  induction entries with
  | nil => simp
  | cons entry rest ih =>
      obtain ⟨apart, restDistinct⟩ := List.pairwise_cons.mp distinct
      rw [lookup_cons_ite, List.mem_cons]
      by_cases here : key = entry.1
      · have missing : (key, value) ∉ rest := fun member => apart _ member here.symm
        simp [here ▸ missing, Prod.ext_iff, here, eq_comm]
      · have other : (key, value) ≠ entry := fun same => here (congrArg Prod.fst same)
        rw [if_neg here, ih restDistinct]
        simp [other]

end Keys

end ReleaseAudit.Lists
