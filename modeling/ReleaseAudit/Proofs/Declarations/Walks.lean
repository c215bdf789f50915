import ReleaseAudit.Proofs.Declarations.Reach

/-!
# Breadth-first order

A walk goes from key to successor. The ends of all walks, fewer steps first and
the earlier successors first among walks of the same number of steps, list
every key that can be reached, and most of them more than once. A search with a
work list finds the keys in this order, each where it comes first.
-/

namespace ReleaseAudit.Declarations

set_option autoImplicit false

/-- The ends of the walks of a number of steps, earlier successors first. -/
def walks (next : String → List String) (start : String) : Nat → List String
  | 0 => [start]
  | steps + 1 => (walks next start steps).flatMap next

/-- The ends of the walks of fewer steps, fewest first. -/
def shorterWalks (next : String → List String) (start : String) (steps : Nat) : List String :=
  (List.range steps).flatMap (walks next start)

def fresh (keys seen : List String) : List String :=
  (unseen keys seen).eraseDups

variable {next : String → List String} {key start : String}
  {keys later seen others queue visited : List String} {steps : Nat}

theorem mem_fresh : key ∈ fresh keys seen ↔ key ∈ keys ∧ key ∉ seen := by
  simp [fresh, unseen]

theorem unseen_congr (same : ∀ key, key ∈ seen ↔ key ∈ others) :
    unseen keys seen = unseen keys others := by
  simp [unseen, same]

theorem fresh_congr (same : ∀ key, key ∈ seen ↔ key ∈ others) :
    fresh keys seen = fresh keys others := by
  unfold fresh
  rw [unseen_congr same]

theorem fresh_nil_left (seen : List String) : fresh [] seen = [] := by
  simp [fresh, unseen]

theorem fresh_nil_right (keys : List String) : fresh keys [] = keys.eraseDups := by
  have all : unseen keys [] = keys := List.filter_eq_self.mpr (by simp)
  rw [fresh, all]

theorem fresh_eq_nil_iff : fresh keys seen = [] ↔ ∀ key ∈ keys, key ∈ seen := by
  simp [List.eq_nil_iff_forall_not_mem, mem_fresh]

theorem fresh_append (keys later seen : List String) :
    fresh (keys ++ later) seen = fresh keys seen ++ fresh later (keys ++ seen) := by
  have behind : (unseen later seen).removeAll (unseen keys seen) = unseen later (keys ++ seen) := by
    simp only [List.removeAll, unseen, List.filter_filter]
    apply List.filter_congr
    intro key _
    by_cases old : key ∈ seen <;> simp [old]
  have parts : unseen (keys ++ later) seen = unseen keys seen ++ unseen later seen :=
    List.filter_append ..
  unfold fresh
  rw [parts, List.eraseDups_append, behind]

theorem fresh_cons_of_mem (old : key ∈ seen) : fresh (key :: keys) seen = fresh keys seen := by
  simp [fresh, unseen, old]

theorem fresh_cons_of_not_mem (notSeen : key ∉ seen) :
    fresh (key :: keys) seen = key :: fresh keys (key :: seen) := by
  have first : fresh [key] seen = [key] := by
    simp [fresh, unseen, notSeen, List.eraseDups_cons]
  rw [← List.singleton_append, fresh_append, first]
  rfl

/-- Keys whose successors have all been seen add nothing to the next level. -/
theorem fresh_flat_map_fresh (done : ∀ key ∈ others, ∀ successor ∈ next key, successor ∈ seen) :
    fresh ((fresh keys others).flatMap next) seen = fresh (keys.flatMap next) seen := by
  induction keys generalizing others seen with
  | nil => rw [fresh_nil_left]
  | cons key keys ih =>
      rw [List.flatMap_cons, fresh_append]
      by_cases old : key ∈ others
      · -- The left side lacks its successors; on the right they have all been seen.
        have nothing : fresh (next key) seen = [] := fresh_eq_nil_iff.mpr (done key old)
        have same : ∀ other, other ∈ next key ++ seen ↔ other ∈ seen := by
          intro other
          rw [List.mem_append, or_iff_right_of_imp (done key old other)]
        rw [fresh_cons_of_mem old, nothing, List.nil_append, fresh_congr same]
        exact ih done
      · rw [fresh_cons_of_not_mem old, List.flatMap_cons, fresh_append]
        congr 1
        apply ih
        intro other member successor isNext
        rcases List.mem_cons.mp member with rfl | before
        · exact List.mem_append_left _ isNext
        · exact List.mem_append_right _ (done other before successor isNext)

namespace Drains

/-- The keys at the front of the work list are gone through before any of their successors. -/
theorem pass (drains : Drains next (keys ++ later) seen visited) :
    ∃ seenThen rest, visited = fresh keys seen ++ rest ∧
      (∀ key, key ∈ seenThen ↔ key ∈ keys ∨ key ∈ seen) ∧
      Drains next (later ++ (fresh keys seen).flatMap next) seenThen rest := by
  induction keys generalizing later seen visited with
  | nil =>
      refine ⟨seen, visited, ?_, by simp, ?_⟩
      · rw [fresh_nil_left, List.nil_append]
      · rw [fresh_nil_left, List.flatMap_nil, List.append_nil]
        exact drains
  | cons first keys ih =>
      cases drains with
      | skip old behind =>
          obtain ⟨seenThen, rest, isVisited, isSeen, onward⟩ := ih behind
          rw [← fresh_cons_of_mem old] at isVisited onward
          refine ⟨seenThen, rest, isVisited, ?_, onward⟩
          intro key
          rw [isSeen, List.mem_cons]
          grind
      | visit notSeen behind =>
          rw [List.append_eq, List.append_assoc] at behind
          obtain ⟨seenThen, rest, isVisited, isSeen, onward⟩ := ih behind
          refine ⟨seenThen, rest, ?_, ?_, ?_⟩
          · rw [fresh_cons_of_not_mem notSeen, isVisited]
            rfl
          · intro key
            rw [isSeen, List.mem_cons, List.mem_cons]
            grind
          · rw [fresh_cons_of_not_mem notSeen, List.flatMap_cons, ← List.append_assoc]
            exact onward

end Drains

theorem shorter_walks_succ (next : String → List String) (start : String) (steps : Nat) :
    shorterWalks next start (steps + 1) =
      shorterWalks next start steps ++ walks next start steps := by
  simp [shorterWalks, List.range_succ]

theorem erase_dups_shorter_walks_succ (next : String → List String) (start : String) (steps : Nat) :
    (shorterWalks next start (steps + 1)).eraseDups =
      (shorterWalks next start steps).eraseDups ++
        fresh (walks next start steps) (shorterWalks next start steps) := by
  rw [← fresh_nil_right, ← fresh_nil_right, shorter_walks_succ, fresh_append, List.append_nil]

theorem mem_shorter_walks_succ {successor : String}
    (reached : key ∈ shorterWalks next start steps) (isNext : successor ∈ next key) :
    successor ∈ shorterWalks next start (steps + 1) := by
  obtain ⟨length, fewer, ends⟩ := List.mem_flatMap.mp reached
  apply List.mem_flatMap.mpr
  refine ⟨length + 1, ?_, List.mem_flatMap.mpr ⟨key, ends, isNext⟩⟩
  rw [List.mem_range] at fewer ⊢
  omega

/-- How a search stands when it has listed all ends of walks of fewer steps. -/
structure AtLevel (next : String → List String) (start : String) (visited : List String)
    (steps : Nat) (level seen rest : List String) : Prop where
  listed : visited = (shorterWalks next start steps).eraseDups ++ rest
  mem_seen_iff : ∀ key, key ∈ seen ↔ key ∈ shorterWalks next start steps
  /-- What is pending is the next level, but for keys that will be dropped. -/
  fresh_level : fresh level seen = fresh (walks next start steps) seen
  drains : Drains next level seen rest
  /-- A search that goes on has found something at every level. -/
  grows : rest = [] ∨ steps ≤ (shorterWalks next start steps).eraseDups.length

namespace AtLevel

variable {level rest : List String}

theorem succ (reached : AtLevel next start visited steps level seen rest) :
    ∃ level seen rest, AtLevel next start visited (steps + 1) level seen rest := by
  have drains := reached.drains
  rw [← List.append_nil level] at drains
  obtain ⟨seenThen, restThen, isRest, isSeen, onward⟩ := drains.pass
  rw [List.nil_append] at onward
  have freshLevel :
      fresh level seen = fresh (walks next start steps) (shorterWalks next start steps) :=
    reached.fresh_level.trans (fresh_congr reached.mem_seen_iff)
  have seenIff : ∀ key, key ∈ seenThen ↔ key ∈ shorterWalks next start (steps + 1) := by
    intro key
    have sameLevel : key ∈ level ∧ key ∉ seen ↔ key ∈ walks next start steps ∧ key ∉ seen := by
      rw [← mem_fresh, ← mem_fresh, reached.fresh_level]
    rw [isSeen, shorter_walks_succ, List.mem_append, ← reached.mem_seen_iff]
    grind
  refine ⟨_, seenThen, restThen, ?_, seenIff, ?_, onward, ?_⟩
  · rw [reached.listed, isRest, erase_dups_shorter_walks_succ, freshLevel, List.append_assoc]
  · rw [reached.fresh_level]
    apply fresh_flat_map_fresh
    intro key old successor isNext
    rw [seenIff]
    exact mem_shorter_walks_succ ((reached.mem_seen_iff key).mp old) isNext
  · -- A level without a fresh key leaves nothing pending.
    rw [erase_dups_shorter_walks_succ, ← freshLevel, List.length_append]
    cases nothing : fresh level seen with
    | nil =>
        rw [nothing, List.flatMap_nil] at onward
        cases onward
        exact Or.inl rfl
    | cons found more =>
        rcases reached.grows with ended | enough
        · simp [isRest, nothing] at ended
        · rw [List.length_cons]
          exact Or.inr (by omega)

end AtLevel

namespace Drains

theorem at_level (drains : Drains next [start] [] visited) (steps : Nat) :
    ∃ level seen rest, AtLevel next start visited steps level seen rest := by
  induction steps with
  | zero => exact ⟨[start], [], visited, rfl, fun _ => Iff.rfl, rfl, drains, Or.inr (Nat.zero_le _)⟩
  | succ steps ih =>
      obtain ⟨level, seen, rest, reached⟩ := ih
      exact reached.succ

/-- A search from one key lists the ends of all walks, each where it comes first. -/
theorem eq_erase_dups_shorter_walks (drains : Drains next [start] [] visited)
    (enough : visited.length ≤ steps) :
    visited = (shorterWalks next start steps).eraseDups := by
  obtain ⟨level, seen, rest, reached⟩ := drains.at_level steps
  have listed := reached.listed
  have ended : rest = [] := by
    rcases reached.grows with ended | many
    · exact ended
    · apply List.eq_nil_of_length_eq_zero
      have lengths := congrArg List.length listed
      rw [List.length_append] at lengths
      omega
  rwa [ended, List.append_nil] at listed

end Drains

end ReleaseAudit.Declarations
