/-!
# Breadth-first order

The keys that can be reached in a finite table, each once, nearest first.
Every key that is listed leaves the keys not yet seen, so the search ends on
cyclic tables too.
-/

namespace ReleaseAudit.Declarations

set_option autoImplicit false

def unseen (keys seen : List String) : List String :=
  keys.filter fun key => key ∉ seen

theorem unseen_cons_le (key : String) (keys seen : List String) :
    (unseen keys (key :: seen)).length ≤ (unseen keys seen).length := by
  simp only [unseen, ← List.countP_eq_length_filter]
  apply List.countP_mono_left
  simp_all

theorem unseen_cons_lt {key : String} {keys seen : List String} (known : key ∈ keys)
    (fresh : key ∉ seen) : (unseen keys (key :: seen)).length < (unseen keys seen).length := by
  induction keys with
  | nil => cases known
  | cons head rest ih =>
      have rests := unseen_cons_le key rest seen
      unfold unseen at *
      by_cases here : head = key
      · subst here
        rw [List.filter_cons_of_neg (by simp), List.filter_cons_of_pos (by simpa using fresh)]
        simp only [List.length_cons]
        omega
      · have shorter := ih ((List.mem_cons.mp known).resolve_left fun same => here same.symm)
        by_cases old : head ∈ seen
        · rw [List.filter_cons_of_neg (by simp [old]), List.filter_cons_of_neg (by simp [old])]
          exact shorter
        · rw [List.filter_cons_of_pos (by simp [old, here]),
            List.filter_cons_of_pos (by simp [old])]
          simp only [List.length_cons]
          omega

/-- Known keys reachable from `queue` through `next`, those in `seen` left out. -/
def breadthFirst (keys : List String) (next : String → List String) :
    (queue seen : List String) → List String
  | [], _ => []
  | key :: queue, seen =>
      if _fresh : key ∉ seen ∧ key ∈ keys then
        key :: breadthFirst keys next (queue ++ next key) (key :: seen)
      else breadthFirst keys next queue seen
termination_by queue seen => ((unseen keys seen).length, queue.length)
decreasing_by
  · exact Prod.Lex.left _ _ (unseen_cons_lt _fresh.2 _fresh.1)
  · exact Prod.Lex.right _ (by simp)

end ReleaseAudit.Declarations
