import Mathlib.Data.List.Perm.Subperm
import ReleaseAudit.Proofs.Declarations.Supertypes
import ReleaseAudit.Proofs.Declarations.Walks

/-!
# Members of a type and its bases

A member is looked up on a type, then on its bases, then on theirs, also where
types extend each other in circles. The nearest overload that takes the
arguments wins, however near one that does not take them is.
-/

namespace ReleaseAudit.Declarations

set_option autoImplicit false

open Relation (ReflTransGen)

namespace Index

section Preferred

variable {α : Type}

theorem preferred_filter (test wanted : α → Bool) (candidates : List α) :
    preferred? test (candidates.filter wanted) =
      (candidates.find? fun candidate => wanted candidate && test candidate).or
        (candidates.find? wanted) := by
  unfold preferred?
  rw [List.find?_filter, List.head?_filter]
  simp

theorem preferred_eq_none_iff {test : α → Bool} {candidates : List α} :
    preferred? test candidates = none ↔ candidates = [] := by
  unfold preferred?
  cases candidates <;> simp

end Preferred

/-- The keys that can be reached from a type, by walks along its bases of fewer steps: the nearest
first, each once. -/
def nearestFirst (index : Index) (key : String) (steps : Nat) : List String :=
  (shorterWalks index.baseKeysOf key steps).eraseDups

def declaredUnder (index : Index) (keys : List String) : List (TypeDecl × MemberDecl) :=
  (keys.filterMap index.get?).flatMap fun decl => decl.members.map fun member => (decl, member)

theorem mem_declared_under_iff {index : Index} {keys : List String} {decl : TypeDecl}
    {member : MemberDecl} :
    (decl, member) ∈ index.declaredUnder keys ↔
      ∃ key ∈ keys, index.get? key = some decl ∧ member ∈ decl.members := by
  unfold declaredUnder
  rw [List.mem_flatMap]
  constructor
  · rintro ⟨other, isDecl, isPair⟩
    obtain ⟨key, isKey, found⟩ := List.mem_filterMap.mp isDecl
    obtain ⟨_, declared, same⟩ := List.mem_map.mp isPair
    cases same
    exact ⟨key, isKey, found, declared⟩
  · rintro ⟨key, isKey, found, declared⟩
    exact ⟨decl, List.mem_filterMap.mpr ⟨key, isKey, found⟩, List.mem_map_of_mem declared⟩

theorem declared_under_nil (index : Index) : index.declaredUnder [] = [] := rfl

theorem declared_under_cons_of_none {index : Index} {key : String} {keys : List String}
    (noEntry : index.get? key = none) :
    index.declaredUnder (key :: keys) = index.declaredUnder keys := by
  unfold declaredUnder
  rw [List.filterMap_cons_none noEntry]

theorem declared_under_cons_of_some {index : Index} {key : String} {keys : List String}
    {decl : TypeDecl} (entry : index.get? key = some decl) :
    index.declaredUnder (key :: keys) =
      decl.members.map (fun member => (decl, member)) ++ index.declaredUnder keys := by
  unfold declaredUnder
  rw [List.filterMap_cons_some entry, List.flatMap_cons]

theorem members_named_eq_filter {index : Index} {key : String} {keys : List String}
    (isLineage : index.lineage key = keys.filterMap index.get?) (name : String)
    (wanted : MemberDecl → Bool) :
    index.membersNamed key name wanted = (index.declaredUnder keys).filter fun found =>
      found.2.name == name && wanted found.2 := by
  unfold membersNamed declaredUnder
  rw [isLineage, List.filter_flatMap]
  congr 1
  funext decl
  rw [List.filter_map]
  rfl

theorem base_keys_of_finalize (index : Index) : index.finalize.baseKeysOf = index.directBases := by
  funext key
  unfold baseKeysOf
  rw [get_finalize]
  cases found : index.get? key <;> simp [directBases, found]

theorem keys_finalize (index : Index) : index.finalize.keys = index.keys := by
  unfold keys finalize closeSupertypes linkBases
  rw [List.map_map, List.map_map]
  rfl

theorem mem_keys_of_base_keys_of {index : Index} {key base : String}
    (isBase : base ∈ index.finalize.baseKeysOf key) : base ∈ index.finalize.keys := by
  rw [base_keys_of_finalize] at isBase
  rw [keys_finalize]
  exact mem_keys_of_extends (mem_direct_bases_iff.mp isBase)

/-- The search for a member ends when it has gone through types that are entered, or at once when it
starts from a key that is not. -/
theorem exists_drains_lineage (index : Index) (key : String) :
    ∃ visited, Drains index.finalize.baseKeysOf [key] [] visited ∧
      visited.length ≤ index.types.length + 1 ∧
      index.finalize.lineage key = visited.filterMap index.finalize.get? := by
  by_cases known : key ∈ index.finalize.keys
  · have drains : Drains index.finalize.baseKeysOf [key] []
        (breadthFirst index.finalize.keys index.finalize.baseKeysOf [key] []) :=
      drains_breadth_first (fun _ _ _ isBase => mem_keys_of_base_keys_of isBase)
        (by simpa using known)
    refine ⟨_, drains, ?_, rfl⟩
    have entered : ∀ base ∈ breadthFirst index.finalize.keys index.finalize.baseKeysOf [key] [],
        base ∈ index.keys := by
      intro base listed
      obtain ⟨start, pending, path⟩ := drains.reached base listed
      rw [← keys_finalize]
      rcases path.cases_tail with rfl | ⟨sub, -, isBase⟩
      · rwa [List.mem_singleton.mp pending]
      · exact mem_keys_of_base_keys_of isBase
    have atMost := (List.subperm_of_subset drains.nodup entered).length_le
    have entries : index.keys.length = index.types.length := List.length_map _
    omega
  · have unknown : index.finalize.get? key = none := by
      rwa [mem_keys_iff, Option.not_isSome_iff_eq_none] at known
    refine ⟨[key], .visit List.not_mem_nil ?_, by simp, ?_⟩
    · simp only [baseKeysOf, unknown, Option.map_none, Option.getD_none, List.append_nil]
      exact .done [key]
    · rw [lineage, breadthFirst, dif_neg fun both => known both.2, breadthFirst]
      simp [unknown]

/-- A search that stops at the first member that fits and is accepted ends with an answer. Until
then it remembers the first that fits. -/
inductive Searches (index : Index) (fits accepted : MemberDecl → Bool) :
    (queue seen : List String) → (fallback answer : Option (TypeDecl × MemberDecl)) → Prop
  | done (seen : List String) (fallback : Option (TypeDecl × MemberDecl)) :
      Searches index fits accepted [] seen fallback fallback
  | skip {key : String} {queue seen : List String}
      {fallback answer : Option (TypeDecl × MemberDecl)} (old : key ∈ seen)
      (rest : Searches index fits accepted queue seen fallback answer) :
      Searches index fits accepted (key :: queue) seen fallback answer
  | unknown {key : String} {queue seen : List String}
      {fallback answer : Option (TypeDecl × MemberDecl)} (new : key ∉ seen)
      (noEntry : index.get? key = none)
      (rest : Searches index fits accepted queue (key :: seen) fallback answer) :
      Searches index fits accepted (key :: queue) seen fallback answer
  | found {key : String} {queue seen : List String}
      {fallback : Option (TypeDecl × MemberDecl)} {decl : TypeDecl} {member : MemberDecl}
      (new : key ∉ seen) (entry : index.get? key = some decl)
      (here : (decl.members.find? fun member => fits member && accepted member) = some member) :
      Searches index fits accepted (key :: queue) seen fallback (some (decl, member))
  | pass {key : String} {queue seen : List String}
      {fallback answer : Option (TypeDecl × MemberDecl)} {decl : TypeDecl}
      (new : key ∉ seen) (entry : index.get? key = some decl)
      (nowhere : (decl.members.find? fun member => fits member && accepted member) = none)
      (rest : Searches index fits accepted (queue ++ decl.baseKeys) (key :: seen)
        (fallback.or ((decl.members.find? fits).map fun member => (decl, member))) answer) :
      Searches index fits accepted (key :: queue) seen fallback answer

theorem Searches.unique {index : Index} {fits accepted : MemberDecl → Bool}
    {queue seen : List String} {fallback answer other : Option (TypeDecl × MemberDecl)}
    (search : Searches index fits accepted queue seen fallback answer)
    (again : Searches index fits accepted queue seen fallback other) : answer = other := by
  induction search with
  | done => cases again; rfl
  | skip old _ ih =>
      cases again with
      | skip _ rest => exact ih rest
      | unknown new | found new | pass new => exact absurd old new
  | unknown new noEntry _ ih =>
      cases again with
      | skip old => exact absurd old new
      | unknown _ _ rest => exact ih rest
      | found _ entry | pass _ entry => simp [noEntry] at entry
  | found new entry here =>
      cases again with
      | skip old => exact absurd old new
      | unknown _ noEntry => simp [noEntry] at entry
      | found _ same there =>
          cases entry.symm.trans same
          cases here.symm.trans there
          rfl
      | pass _ same nowhere =>
          cases entry.symm.trans same
          simp [nowhere] at here
  | pass new entry nowhere _ ih =>
      cases again with
      | skip old => exact absurd old new
      | unknown _ noEntry => simp [noEntry] at entry
      | found _ same here =>
          cases entry.symm.trans same
          simp [nowhere] at here
      | pass _ same _ rest =>
          cases entry.symm.trans same
          exact ih rest

/-- Stopping early and remembering the first that fits finds what a look through all members of all
types in the order of the search finds. -/
theorem searches_of_drains {index : Index} (fits accepted : MemberDecl → Bool)
    {queue seen visited : List String} (drains : Drains index.baseKeysOf queue seen visited)
    (fallback : Option (TypeDecl × MemberDecl)) :
    Searches index fits accepted queue seen fallback
      (((index.declaredUnder visited).find? fun found => fits found.2 && accepted found.2).or
        (fallback.or ((index.declaredUnder visited).find? fun found => fits found.2))) := by
  induction drains generalizing fallback with
  | done seen =>
      simp only [declared_under_nil, List.find?_nil, Option.none_or, Option.or_none]
      exact .done seen fallback
  | skip old rest ih => exact .skip old (ih fallback)
  | @visit key queue seen visited new rest ih =>
      cases entry : index.get? key with
      | none =>
          have noBases : index.baseKeysOf key = [] := by
            simp [baseKeysOf, entry]
          rw [noBases, List.append_nil] at ih
          rw [declared_under_cons_of_none entry]
          exact .unknown new entry (ih fallback)
      | some decl =>
          have bases : index.baseKeysOf key = decl.baseKeys := by
            simp [baseKeysOf, entry]
          rw [bases] at ih
          rw [declared_under_cons_of_some entry, List.find?_append, List.find?_append,
            List.find?_map, List.find?_map]
          cases here : decl.members.find? fun member => fits member && accepted member with
          | some member =>
              simp only [Function.comp_def, here, Option.map_some, Option.some_or]
              exact .found new entry here
          | none =>
              simp only [Function.comp_def, here, Option.map_none, Option.none_or]
              have onward := ih
                (fallback.or ((decl.members.find? fits).map fun member => (decl, member)))
              rw [Option.or_assoc] at onward
              exact .pass new entry here onward

/-- Members are looked up along the bases, nearest first: the first wanted one of the name that
takes the arguments is found, or else the first wanted one of the name. A search that stops there
ends on every table, with this answer and no other. It finds nothing exactly if no type that can be
reached declares a wanted member of the name. -/
theorem find_member_nearest (index : Index) (key name : String) (wanted : MemberDecl → Bool)
    (count : Option Nat) (steps : Nat) (enough : index.types.length < steps) :
    (∀ answer, Searches index.finalize (fun member => member.name == name && wanted member)
        (fun member => count.all member.accepts) [key] [] none answer ↔
      index.finalize.findMember? key name wanted count = answer) ∧
    index.finalize.findMember? key name wanted count =
      ((index.finalize.declaredUnder (index.finalize.nearestFirst key steps)).find? fun found =>
        (found.2.name == name && wanted found.2) && count.all found.2.accepts).or
      ((index.finalize.declaredUnder (index.finalize.nearestFirst key steps)).find? fun found =>
        found.2.name == name && wanted found.2) ∧
    (index.finalize.findMember? key name wanted count = none ↔
      ¬∃ base decl, ReflTransGen (fun sub above => above ∈ index.finalize.baseKeysOf sub) key base ∧
        index.finalize.get? base = some decl ∧
        ∃ member ∈ decl.members, member.name = name ∧ wanted member = true) := by
  obtain ⟨visited, drains, atMost, isLineage⟩ := index.exists_drains_lineage key
  have isNearest : visited = index.finalize.nearestFirst key steps :=
    drains.eq_erase_dups_shorter_walks (by omega)
  have chosen := preferred_filter (fun found => count.all found.2.accepts)
    (fun found => found.2.name == name && wanted found.2) (index.finalize.declaredUnder visited)
  rw [← isNearest]
  unfold findMember?
  rw [members_named_eq_filter isLineage]
  refine ⟨fun answer => ?_, chosen, ?_⟩
  · have search := searches_of_drains (fun member => member.name == name && wanted member)
      (fun member => count.all member.accepts) drains none
    rw [chosen]
    exact ⟨search.unique, fun isAnswer => isAnswer ▸ search⟩
  have reached : ∀ base, base ∈ visited ↔
      ReflTransGen (fun sub above => above ∈ index.finalize.baseKeysOf sub) key base := by
    intro base
    rw [drains.mem_iff]
    simp
  rw [preferred_eq_none_iff, List.filter_eq_nil_iff]
  constructor
  · rintro nothing ⟨base, decl, path, found, member, declared, named, isWanted⟩
    have listed := mem_declared_under_iff.mpr ⟨base, (reached base).mpr path, found, declared⟩
    exact nothing _ listed (by simp [named, isWanted])
  · rintro nothing ⟨decl, member⟩ listed fits
    obtain ⟨base, isVisited, found, declared⟩ := mem_declared_under_iff.mp listed
    rw [Bool.and_eq_true, beq_iff_eq] at fits
    exact nothing ⟨base, decl, (reached base).mp isVisited, found, member, declared, fits⟩

def methodTaking (name : String) (arguments : Nat) : MemberDecl where
  kind := .method
  name := name
  type := none
  typeParams := []
  parameters := some (List.replicate arguments ⟨none, false, false⟩)
  isStatic := false
  isExtension := false
  returnsTypeArgument := none

/-- Two types that extend each other, and a base of one of them. -/
def overloads : Index where
  types := [
    { plainClass "A" ["B"] with members := [methodTaking "M" 0] },
    { plainClass "B" ["A", "C"] with members := [methodTaking "M" 2, methodTaking "N" 1] },
    { plainClass "C" [] with members := [methodTaking "M" 1] }]

/-- Only the most distant overload takes one argument, and none takes three. -/
theorem find_member_nearest_distant :
    overloads.types.length < 4 ∧
    overloads.finalize.nearestFirst "A" 4 = ["A", "B", "C"] ∧
    (overloads.finalize.findMember? "A" "M" MemberDecl.isMethod (some 1)).map
      (fun found => found.1.key) = some "C" ∧
    (overloads.finalize.findMember? "A" "M" MemberDecl.isMethod (some 3)).map
      (fun found => found.1.key) = some "A" ∧
    ∃ answer, Searches overloads.finalize (fun member => member.name == "M" && member.isMethod)
      (fun member => (some 1).all member.accepts) ["A"] [] none (some answer) := by
  have enough : overloads.types.length < 4 := by decide
  have order : overloads.finalize.nearestFirst "A" 4 = ["A", "B", "C"] := by decide +kernel
  obtain ⟨search, one, -⟩ :=
    find_member_nearest overloads "A" "M" MemberDecl.isMethod (some 1) 4 enough
  obtain ⟨-, three, -⟩ :=
    find_member_nearest overloads "A" "M" MemberDecl.isMethod (some 3) 4 enough
  have distant : (overloads.finalize.findMember? "A" "M" MemberDecl.isMethod (some 1)).map
      (fun found => found.1.key) = some "C" := by
    rw [one, order]
    decide +kernel
  obtain ⟨answer, isAnswer, -⟩ := Option.map_eq_some_iff.mp distant
  refine ⟨enough, order, distant, ?_, answer, (search _).mpr isAnswer⟩
  rw [three, order]
  decide +kernel

end Index

end ReleaseAudit.Declarations
