import Mathlib.Data.List.Nodup
import Mathlib.Data.String.Basic
import ReleaseAudit.Proofs.Declarations.Agreement
import ReleaseAudit.Proofs.Declarations.Reach

/-!
# Supertypes

The supertypes of a declared type are the names of everything that can be
reached from it along written bases, each base looked up in the scope of the
declaration that writes it. Types may extend each other in circles, write bases
that nobody declares, or write one twice.
-/

namespace ReleaseAudit.Types

set_option autoImplicit false

theorem pairwise_insert_name (name : String) {names : List String}
    (ascending : names.Pairwise (· < ·)) : (insertName name names).Pairwise (· < ·) := by
  induction names with
  | nil => exact List.pairwise_singleton _ name
  | cons head rest ih =>
      have below := (List.pairwise_cons.mp ascending).1
      have restAscending := (List.pairwise_cons.mp ascending).2
      unfold insertName
      split
      · exact ascending
      · next differs =>
          split
          · next before =>
              apply List.pairwise_cons.mpr
              refine ⟨fun other member => ?_, ascending⟩
              rcases List.mem_cons.mp member with rfl | later
              · exact before
              · exact lt_trans before (below other later)
          · next notBefore =>
              apply List.pairwise_cons.mpr
              refine ⟨fun other member => ?_, ih restAscending⟩
              rcases mem_insert_name.mp member with rfl | old
              · exact lt_of_le_of_ne (le_of_not_gt notBefore) (Ne.symm differs)
              · exact below other old

theorem pairwise_sort_names (names : List String) : (sortNames names).Pairwise (· < ·) := by
  induction names with
  | nil => exact .nil
  | cons name rest ih => exact pairwise_insert_name name ih

end ReleaseAudit.Types

namespace ReleaseAudit.Declarations

set_option autoImplicit false

open Relation (ReflTransGen TransGen)
open ReleaseAudit.Types (TypeRef sortNames mem_sort_names pairwise_sort_names)

namespace Index

def ofDecls (implicitUsings : List String) (decls : List TypeDecl) : Index :=
  decls.foldl insert { implicitUsings := implicitUsings }

/-- The declaration under one key writes a base that stands for another key. -/
def Extends (index : Index) (key base : String) : Prop :=
  ∃ decl, index.get? key = some decl ∧ base ≠ key ∧
    ∃ written ∈ decl.bases, index.lookupKey? written.name written.arity decl.scope = some base

def directBases (index : Index) (key : String) : List String :=
  ((index.get? key).map index.basesOf).getD []

theorem mem_direct_bases_iff {index : Index} {key base : String} :
    base ∈ index.directBases key ↔ index.Extends key base := by
  unfold directBases Extends
  cases found : index.get? key with
  | none => simp
  | some decl =>
      have own : decl.key = key := key_of_get found
      simp only [Option.map_some, Option.getD_some, basesOf, List.mem_filter, List.mem_filterMap,
        own, bne_iff_ne, Option.some.injEq, exists_eq_left']
      exact and_comm

theorem mem_keys_of_extends {index : Index} {key base : String}
    (step : index.Extends key base) : base ∈ index.keys := by
  obtain ⟨decl, -, -, written, -, looked⟩ := step
  apply mem_keys_iff.mpr
  unfold lookupKey? at looked
  exact (List.find?_some looked :)

theorem get_link_bases (index : Index) (key : String) :
    index.linkBases.get? key = (index.get? key).map index.withBases :=
  index.get_map_types index.withBases (fun _ => rfl) key

theorem get_close_supertypes (index : Index) (key : String) :
    index.closeSupertypes.get? key = (index.get? key).map index.withSupertypes :=
  index.get_map_types index.withSupertypes (fun _ => rfl) key

theorem mem_keys_link_bases {index : Index} {key : String} :
    key ∈ index.linkBases.keys ↔ key ∈ index.keys := by
  rw [mem_keys_iff, mem_keys_iff, get_link_bases, Option.isSome_map]

theorem base_keys_of_link_bases (index : Index) :
    index.linkBases.baseKeysOf = index.directBases := by
  funext key
  unfold baseKeysOf directBases
  rw [get_link_bases, Option.map_map]
  rfl

theorem map_full_name_link_bases (index : Index) (key : String) :
    (index.linkBases.get? key).map TypeDecl.fullName =
      (index.get? key).map TypeDecl.fullName := by
  rw [get_link_bases, Option.map_map]
  rfl

def basesAbove (index : Index) (key : String) : List String :=
  breadthFirst index.linkBases.keys index.directBases (index.directBases key) []

/-- The search ends, though no bound is set to it. -/
theorem drains_bases_above (index : Index) (key : String) :
    Drains index.directBases (index.directBases key) [] (index.basesAbove key) := by
  have known : ∀ sub, ∀ base ∈ index.directBases sub, base ∈ index.linkBases.keys := by
    intro sub base member
    apply mem_keys_link_bases.mpr
    exact mem_keys_of_extends (mem_direct_bases_iff.mp member)
  apply drains_breadth_first
  · intro sub _ base member
    exact known sub base member
  · exact known key

theorem mem_bases_above_iff {index : Index} {key base : String} :
    base ∈ index.basesAbove key ↔ TransGen index.Extends key base := by
  have steps : (fun sub above => above ∈ index.directBases sub) = index.Extends := by
    funext sub above
    exact propext mem_direct_bases_iff
  rw [(index.drains_bases_above key).mem_iff, steps, TransGen.head'_iff]
  simp only [mem_direct_bases_iff]

theorem get_finalize (index : Index) (key : String) :
    index.finalize.get? key = (index.get? key).map fun decl =>
      { decl with
        baseKeys := index.directBases key
        supertypes := sortNames ((index.basesAbove key).filterMap fun base =>
          (index.get? base).map TypeDecl.fullName) } := by
  unfold finalize
  rw [get_close_supertypes, get_link_bases, Option.map_map]
  cases found : index.get? key with
  | none => rfl
  | some decl =>
      have own : index.directBases key = index.basesOf decl := by
        simp [directBases, found]
      have named : (fun base => (index.linkBases.get? base).map TypeDecl.fullName) =
          fun base => (index.get? base).map TypeDecl.fullName :=
        funext index.map_full_name_link_bases
      simp only [Option.map_some, Function.comp_apply, withSupertypes, withBases, supertypesOf,
        basesAbove, base_keys_of_link_bases, own, named]

/-- The same declarations, listed in another order. -/
structure Reordered (left right : Index) : Prop where
  types : left.types.Perm right.types
  implicitUsings : left.implicitUsings = right.implicitUsings

theorem nodup_keys_insert {index : Index} (distinct : index.keys.Nodup) (decl : TypeDecl) :
    (index.insert decl).keys.Nodup := by
  unfold insert
  split
  · have same : keys { index with
        types := index.types.map fun entry =>
          if entry.key = decl.key then entry.merge decl else entry } = index.keys := by
      unfold keys
      rw [List.map_map]
      apply List.map_congr_left
      intro entry _
      simp only [Function.comp_apply]
      split <;> rfl
    exact same ▸ distinct
  · next missing =>
      have fresh : decl.key ∉ index.keys := by
        rw [mem_keys_iff, missing]
        simp
      have listed : (index.types ++ [decl]).map TypeDecl.key = index.keys.concat decl.key := by
        simp [keys]
      change ((index.types ++ [decl]).map TypeDecl.key).Nodup
      rw [listed]
      exact distinct.concat fresh

theorem nodup_keys_of_decls (implicitUsings : List String) (decls : List TypeDecl) :
    (ofDecls implicitUsings decls).keys.Nodup := by
  have kept : ∀ index : Index, index.keys.Nodup → (decls.foldl insert index).keys.Nodup := by
    induction decls with
    | nil => exact fun _ distinct => distinct
    | cons decl rest ih => exact fun index distinct => ih _ (nodup_keys_insert distinct decl)
  exact kept _ List.nodup_nil

theorem get_eq_some_iff {index : Index} (distinct : index.keys.Nodup) {key : String}
    {decl : TypeDecl} : index.get? key = some decl ↔ decl ∈ index.types ∧ decl.key = key := by
  constructor
  · intro found
    exact ⟨List.mem_of_find?_eq_some found, key_of_get found⟩
  · rintro ⟨member, rfl⟩
    have known : (index.get? decl.key).isSome = true :=
      mem_keys_iff.mp (List.mem_map_of_mem member)
    obtain ⟨other, found⟩ := Option.isSome_iff_exists.mp known
    rw [found]
    congr 1
    exact List.inj_on_of_nodup_map distinct (List.mem_of_find?_eq_some found) member
      (key_of_get found)

namespace Reordered

variable {left right : Index}

theorem nodup_keys (reordered : Reordered left right) (distinct : left.keys.Nodup) :
    right.keys.Nodup :=
  (reordered.types.map TypeDecl.key).nodup_iff.mp distinct

theorem get (reordered : Reordered left right) (distinct : left.keys.Nodup) :
    left.get? = right.get? := by
  funext key
  apply Option.ext
  intro decl
  rw [get_eq_some_iff distinct, get_eq_some_iff (reordered.nodup_keys distinct),
    reordered.types.mem_iff]

theorem with_bases (reordered : Reordered left right) (distinct : left.keys.Nodup) :
    left.withBases = right.withBases := by
  have entries := reordered.get distinct
  have readings : left.readings = right.readings := by
    funext name scope
    unfold Index.readings
    rw [entries, reordered.implicitUsings]
  have looked : left.lookupKey? = right.lookupKey? := by
    funext name arity scope
    unfold Index.lookupKey?
    rw [readings, entries]
  funext decl
  unfold Index.withBases basesOf
  rw [looked]

theorem link_bases (reordered : Reordered left right) (distinct : left.keys.Nodup) :
    Reordered left.linkBases right.linkBases where
  types := by
    unfold Index.linkBases
    rw [reordered.with_bases distinct]
    exact reordered.types.map right.withBases
  implicitUsings := reordered.implicitUsings

theorem with_supertypes (reordered : Reordered left right) (distinct : left.keys.Nodup) :
    left.withSupertypes = right.withSupertypes := by
  have entries := reordered.get distinct
  have known : ∀ key, key ∈ left.keys ↔ key ∈ right.keys := by
    intro key
    rw [mem_keys_iff, mem_keys_iff, entries]
  have recorded : left.baseKeysOf = right.baseKeysOf := by
    funext key
    unfold Index.baseKeysOf
    rw [entries]
  funext decl
  unfold Index.withSupertypes supertypesOf
  rw [breadth_first_congr known, recorded, entries]

theorem get_close_supertypes (reordered : Reordered left right) (distinct : left.keys.Nodup) :
    left.closeSupertypes.get? = right.closeSupertypes.get? := by
  funext key
  rw [Index.get_close_supertypes, Index.get_close_supertypes, reordered.get distinct,
    reordered.with_supertypes distinct]

theorem trans {middle : Index} (first : Reordered left middle) (second : Reordered middle right) :
    Reordered left right where
  types := first.types.trans second.types
  implicitUsings := first.implicitUsings.trans second.implicitUsings

end Reordered

theorem nodup_keys_link_bases {index : Index} (distinct : index.keys.Nodup) :
    index.linkBases.keys.Nodup := by
  have same : index.linkBases.keys = index.keys := by
    unfold keys linkBases
    rw [List.map_map]
    rfl
  exact same ▸ distinct

end Index

open Index (Reordered ofDecls)

/-- Every type that was entered has as supertypes the names of exactly the types above it, each
once. The search for them ends, and the table may be gone through in any order, once to record
the bases and once to search. -/
theorem supertypes_finalize (implicitUsings : List String) (decls : List TypeDecl)
    (key : String) (declared : key ∈ (ofDecls implicitUsings decls).keys) :
    ∃ decl, (ofDecls implicitUsings decls).finalize.get? key = some decl ∧
      (∀ name, name ∈ decl.supertypes ↔
        ∃ base above, TransGen (ofDecls implicitUsings decls).Extends key base ∧
          (ofDecls implicitUsings decls).get? base = some above ∧ above.fullName = name) ∧
      decl.supertypes.Pairwise (· < ·) ∧
      (∃ visited, visited.Nodup ∧
        Drains (ofDecls implicitUsings decls).directBases
          ((ofDecls implicitUsings decls).directBases key) [] visited ∧
        decl.supertypes = sortNames (visited.filterMap fun base =>
          ((ofDecls implicitUsings decls).get? base).map TypeDecl.fullName)) ∧
      ∀ reordered linked, Reordered (ofDecls implicitUsings decls) reordered →
        Reordered reordered.linkBases linked →
        linked.closeSupertypes.get? key = some decl := by
  have distinct := Index.nodup_keys_of_decls implicitUsings decls
  generalize ofDecls implicitUsings decls = index at *
  obtain ⟨original, found⟩ := Option.isSome_iff_exists.mp (Index.mem_keys_iff.mp declared)
  have recorded := index.get_finalize key
  rw [found, Option.map_some] at recorded
  refine ⟨_, recorded, ?_, pairwise_sort_names _, ?_, ?_⟩
  · intro name
    simp only [mem_sort_names, List.mem_filterMap, Index.mem_bases_above_iff,
      Option.map_eq_some_iff]
    constructor
    · rintro ⟨base, path, above, entry, named⟩
      exact ⟨base, above, path, entry, named⟩
    · rintro ⟨base, above, path, entry, named⟩
      exact ⟨base, path, above, entry, named⟩
  · have drains := index.drains_bases_above key
    exact ⟨index.basesAbove key, drains.nodup, drains, rfl⟩
  · intro reordered linked first second
    have throughout := (first.link_bases distinct).trans second
    rw [← throughout.get_close_supertypes (Index.nodup_keys_link_bases distinct)]
    exact recorded

def plainClass (name : String) (bases : List String) : TypeDecl where
  fullName := name
  key := name
  kind := .classType
  typeParams := []
  bases := bases.map fun base => ⟨base, [], false⟩
  scope := {}
  members := []

/-- Two types that extend each other; one of them also names itself, a type that nobody declares,
and the other type once more. -/
def circle : List TypeDecl :=
  [plainClass "A" ["B", "A", "Nobody"], plainClass "B" ["A"], plainClass "A" ["B"]]

theorem supertypes_finalize_circle :
    "A" ∈ (ofDecls [] circle).keys ∧
    ∃ decl, (ofDecls [] circle).finalize.get? "A" = some decl ∧
      ∀ name, name ∈ decl.supertypes ↔ name = "A" ∨ name = "B" := by
  have declared : "A" ∈ (ofDecls [] circle).keys := by decide +kernel
  have up : (ofDecls [] circle).Extends "A" "B" :=
    Index.mem_direct_bases_iff.mp (by decide +kernel)
  have back : (ofDecls [] circle).Extends "B" "A" :=
    Index.mem_direct_bases_iff.mp (by decide +kernel)
  have names : ∀ entry ∈ (ofDecls [] circle).types,
      entry.fullName = "A" ∨ entry.fullName = "B" := by decide +kernel
  obtain ⟨decl, found, reached, -⟩ := supertypes_finalize [] circle "A" declared
  refine ⟨declared, decl, found, fun name => (reached name).trans ⟨?_, ?_⟩⟩
  · rintro ⟨base, above, -, entry, rfl⟩
    exact names above (List.mem_of_find?_eq_some entry)
  · rintro (rfl | rfl)
    · exact ⟨"A", _, .tail (.single up) back, rfl, rfl⟩
    · exact ⟨"B", _, .single up, rfl, rfl⟩

end ReleaseAudit.Declarations
