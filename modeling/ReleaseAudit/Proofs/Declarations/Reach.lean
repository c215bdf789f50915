import Mathlib.Logic.Relation
import ReleaseAudit.Declarations.Reach

/-!
# What a search with a work list finds

The search is stated here as it goes, without asking whether a key is known:
the first pending key is dropped when it was seen, and otherwise listed, with
its successors pending behind the others. Nothing in these rules bounds the
search; it ends because the successors of known keys are known. What it has
listed when it ends is exactly what can be reached.
-/

namespace ReleaseAudit.Declarations

set_option autoImplicit false

open Relation (ReflTransGen)

/-- A search ends, having listed `visited` in this order. -/
inductive Drains (next : String → List String) :
    (queue seen visited : List String) → Prop
  | done (seen : List String) : Drains next [] seen []
  | skip {key : String} {queue seen visited : List String} (old : key ∈ seen)
      (rest : Drains next queue seen visited) : Drains next (key :: queue) seen visited
  | visit {key : String} {queue seen visited : List String} (fresh : key ∉ seen)
      (rest : Drains next (queue ++ next key) (key :: seen) visited) :
      Drains next (key :: queue) seen (key :: visited)

variable {next : String → List String} {keys queue seen visited : List String}

/-- Among known keys the search ends, with the keys in breadth-first order. -/
theorem drains_breadth_first (closed : ∀ key ∈ keys, ∀ other ∈ next key, other ∈ keys)
    (known : ∀ key ∈ queue, key ∈ keys) :
    Drains next queue seen (breadthFirst keys next queue seen) := by
  fun_induction breadthFirst keys next queue seen with
  | case1 seen => exact .done seen
  | case2 key queue seen fresh ih =>
      apply Drains.visit fresh.1
      apply ih
      intro other pending
      rcases List.mem_append.mp pending with before | added
      · exact known other (List.mem_cons_of_mem key before)
      · exact closed key fresh.2 other added
  | case3 key queue seen old ih =>
      have inKeys : key ∈ keys := known key List.mem_cons_self
      have inSeen : key ∈ seen := by
        by_cases before : key ∈ seen
        · exact before
        · exact absurd ⟨before, inKeys⟩ old
      apply Drains.skip inSeen
      apply ih
      intro other pending
      exact known other (List.mem_cons_of_mem key pending)

namespace Drains

theorem not_mem_seen (drains : Drains next queue seen visited) :
    ∀ key ∈ visited, key ∉ seen := by
  induction drains with
  | done seen => simp
  | skip old rest ih => exact ih
  | @visit key queue seen visited fresh rest ih =>
      intro other listed
      rcases List.mem_cons.mp listed with rfl | later
      · exact fresh
      · intro inSeen
        exact ih other later (List.mem_cons_of_mem key inSeen)

theorem nodup (drains : Drains next queue seen visited) : visited.Nodup := by
  induction drains with
  | done seen => exact List.nodup_nil
  | skip old rest ih => exact ih
  | @visit key queue seen visited fresh rest ih =>
      apply List.nodup_cons.mpr
      refine ⟨?_, ih⟩
      intro again
      exact rest.not_mem_seen key again List.mem_cons_self

theorem reached (drains : Drains next queue seen visited) :
    ∀ key ∈ visited, ∃ start ∈ queue,
      ReflTransGen (fun key successor => successor ∈ next key) start key := by
  induction drains with
  | done seen => simp
  | @skip first queue seen visited old rest ih =>
      intro key listed
      obtain ⟨start, pending, path⟩ := ih key listed
      exact ⟨start, List.mem_cons_of_mem first pending, path⟩
  | @visit first queue seen visited fresh rest ih =>
      intro key listed
      rcases List.mem_cons.mp listed with rfl | later
      · exact ⟨key, List.mem_cons_self, .refl⟩
      · obtain ⟨start, pending, path⟩ := ih key later
        rcases List.mem_append.mp pending with before | added
        · exact ⟨start, List.mem_cons_of_mem first before, path⟩
        · exact ⟨first, List.mem_cons_self, .head added path⟩

theorem mem_of_cons_seen {first key : String} (found : key ∈ first :: seen ∨ key ∈ visited) :
    key ∈ seen ∨ key ∈ first :: visited := by
  rcases found with inSeen | listed
  · rcases List.mem_cons.mp inSeen with rfl | before
    · exact Or.inr List.mem_cons_self
    · exact Or.inl before
  · exact Or.inr (List.mem_cons_of_mem first listed)

theorem mem_of_pending (drains : Drains next queue seen visited) :
    ∀ key ∈ queue, key ∈ seen ∨ key ∈ visited := by
  induction drains with
  | done seen => simp
  | @skip first queue seen visited old rest ih =>
      intro key pending
      rcases List.mem_cons.mp pending with rfl | later
      · exact Or.inl old
      · exact ih key later
  | @visit first queue seen visited fresh rest ih =>
      intro key pending
      rcases List.mem_cons.mp pending with rfl | later
      · exact Or.inr List.mem_cons_self
      · exact mem_of_cons_seen (ih key (List.mem_append_left _ later))

theorem mem_of_listed (drains : Drains next queue seen visited) :
    ∀ key ∈ visited, ∀ other ∈ next key, other ∈ seen ∨ other ∈ visited := by
  induction drains with
  | done seen => simp
  | skip old rest ih => exact ih
  | @visit first queue seen visited fresh rest ih =>
      intro key listed other successor
      apply mem_of_cons_seen
      rcases List.mem_cons.mp listed with rfl | later
      · exact rest.mem_of_pending other (List.mem_append_right queue successor)
      · exact ih key later other successor

/-- A search that has seen nothing before lists exactly what can be reached. -/
theorem mem_iff (drains : Drains next queue [] visited) (key : String) :
    key ∈ visited ↔
      ∃ start ∈ queue, ReflTransGen (fun key successor => successor ∈ next key) start key := by
  constructor
  · exact drains.reached key
  · rintro ⟨start, pending, path⟩
    induction path with
    | refl => simpa using drains.mem_of_pending start pending
    | @tail middle last _ successor ih => simpa using drains.mem_of_listed middle ih last successor

end Drains

end ReleaseAudit.Declarations
