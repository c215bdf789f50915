import Mathlib.Data.List.Basic
import ReleaseAudit.Proofs.Declarations.Designation

/-!
# Instantiating generic parameters

Resolving a written type under bindings of generic parameters amounts to
resolving it with the parameters left open and putting the bindings in
afterwards, all at once and at every depth of arguments. A type that is known by
name only looks like an open parameter, so no bound parameter may have a name
that resolution gives to such a type: the full name of a keyword, or the
spelling of an argument that cannot be resolved.
-/

namespace ReleaseAudit.Declarations

set_option autoImplicit false

open ReleaseAudit.Types (TypeRef TypeSymbol keywordType? keywordTypes)

namespace Substitution

def params (bindings : Substitution) : List String :=
  bindings.map Prod.fst

/-- Puts the bindings in for all open parameters at once. What is put in stays as it is. -/
def instantiate (bindings : Substitution) : TypeSymbol → TypeSymbol
  | ⟨fullName, typeArguments, supertypes, kind⟩ =>
      match (if kind = .undeclared then bindings.lookup fullName else none) with
      | some bound => bound
      | none => ⟨fullName, instantiateAll typeArguments, supertypes, kind⟩
where
  instantiateAll : List TypeSymbol → List TypeSymbol
    | [] => []
    | type :: rest => instantiate bindings type :: instantiateAll rest

variable (bindings : Substitution)

theorem instantiate_all_eq_map (types : List TypeSymbol) :
    instantiate.instantiateAll bindings types = types.map bindings.instantiate := by
  induction types with
  | nil => rfl
  | cons type rest ih => rw [instantiate.instantiateAll, List.map_cons, ih]

theorem instantiate_of_declared {type : TypeSymbol} (declared : type.kind ≠ .undeclared) :
    bindings.instantiate type =
      { type with typeArguments := type.typeArguments.map bindings.instantiate } := by
  obtain ⟨fullName, typeArguments, supertypes, kind⟩ := type
  have kept : ¬ kind = .undeclared := declared
  rw [instantiate, if_neg kept, instantiate_all_eq_map]

theorem instantiate_of_name (name : String) :
    bindings.instantiate (TypeSymbol.ofName name) =
      (bindings.lookup name).getD (TypeSymbol.ofName name) := by
  rw [TypeSymbol.ofName, instantiate, if_pos rfl]
  cases bindings.lookup name <;> rfl

variable {bindings}

theorem lookup_eq_none {name : String} (free : name ∉ bindings.params) :
    bindings.lookup name = none := by
  rw [List.lookup_eq_none_iff]
  intro entry member
  have other : entry.1 ≠ name := fun same => free (same ▸ List.mem_map_of_mem member)
  simpa using other.symm

theorem instantiate_of_name_of_free {name : String} (free : name ∉ bindings.params) :
    bindings.instantiate (TypeSymbol.ofName name) = TypeSymbol.ofName name := by
  rw [instantiate_of_name, lookup_eq_none free, Option.getD_none]

theorem mem_params_bind_all {params : List String} {arguments : List TypeSymbol} {name : String}
    (member : name ∈ (bindings.bindAll params arguments).params) :
    name ∈ params ∨ name ∈ bindings.params := by
  obtain ⟨entry, listed, rfl⟩ := List.mem_map.mp member
  rcases List.mem_append.mp listed with inPairs | inBindings
  · exact Or.inl (List.of_mem_zip (List.mem_reverse.mp inPairs)).1
  · exact Or.inr (List.mem_map_of_mem inBindings)

end Substitution

namespace Index

/-- Resolution gives the name to no type that is known by its name only: it spells no generic
type, and it is the full name of a keyword only if that type is declared. -/
def Distinctive (index : Index) (name : String) : Prop :=
  '<' ∉ name.toList ∧
    ∀ entry ∈ keywordTypes, entry.2 = name → (index.get? name).isSome = true

instance (index : Index) (name : String) : Decidable (index.Distinctive name) :=
  inferInstanceAs (Decidable (_ ∧ _))

def Declared (index : Index) : Prop :=
  ∀ decl ∈ index.types, decl.kind ≠ .undeclared

instance (index : Index) : Decidable index.Declared :=
  inferInstanceAs (Decidable (∀ _ ∈ _, _))

theorem symbol_for_map_instantiate {index : Index} (declared : index.Declared)
    (bindings : Substitution) (key : String) (arguments : List TypeSymbol) :
    (index.symbolFor? key arguments).map bindings.instantiate =
      index.symbolFor? key (arguments.map bindings.instantiate) := by
  unfold symbolFor?
  cases found : index.get? key with
  | none => rfl
  | some decl =>
      have kind : decl.kind ≠ .undeclared := declared decl (List.mem_of_find?_eq_some found)
      exact congrArg some (bindings.instantiate_of_declared kind)

theorem mem_spelling_of_args {written : TypeRef} (generic : written.args ≠ []) :
    '<' ∈ written.spelling.toList := by
  obtain ⟨name, args, array⟩ := written
  cases args with
  | nil => exact absurd rfl generic
  | cons first rest => simp [TypeRef.spelling]

section Resolve

variable {index : Index} {scope : NameScope} {bindings : Substitution}

theorem parameter_symbol_instantiate (inScope : ∀ name ∈ bindings.params, name ∈ scope.typeParams)
    (name : String) :
    parameterSymbol? scope bindings name =
      (parameterSymbol? scope [] name).map bindings.instantiate := by
  unfold parameterSymbol?
  by_cases bound : name ∈ bindings.params
  · have visible := inScope name bound
    have found : (bindings.lookup name).isSome = true := by
      obtain ⟨entry, member, rfl⟩ := List.mem_map.mp bound
      cases absent : bindings.lookup entry.1 with
      | some _ => rfl
      | none => exact absurd (List.lookup_eq_none_iff.mp absent entry member) (by simp)
    obtain ⟨type, isType⟩ := Option.isSome_iff_exists.mp found
    simp [visible, isType, bindings.instantiate_of_name]
  · rw [Substitution.lookup_eq_none bound, List.lookup_nil]
    split
    · simp [Substitution.instantiate_of_name_of_free bound]
    · rfl

theorem keyword_symbol_instantiate (declared : index.Declared)
    (distinctive : ∀ name ∈ bindings.params, index.Distinctive name) {keyword full : String}
    (found : keywordType? keyword = some full) :
    bindings.instantiate ((index.symbolFor? full []).getD (TypeSymbol.ofName full)) =
      (index.symbolFor? full []).getD (TypeSymbol.ofName full) := by
  have symbol := symbol_for_map_instantiate declared bindings full []
  cases known : index.symbolFor? full [] with
  | some type =>
      rw [known, List.map_nil, known] at symbol
      exact Option.some.inj symbol
  | none =>
      apply Substitution.instantiate_of_name_of_free
      intro bound
      have entered := (distinctive full bound).2 (keyword, full) (mem_keyword_types found) rfl
      rw [symbolFor?, Option.map_eq_none_iff] at known
      rw [known] at entered
      cases entered

/-- An argument that cannot be resolved is no parameter, and a generic one is spelled with its
own arguments. -/
theorem spelling_not_mem_params (inScope : ∀ name ∈ bindings.params, name ∈ scope.typeParams)
    (distinctive : ∀ name ∈ bindings.params, index.Distinctive name) {written : TypeRef}
    (unresolved : index.resolve? scope [] written = none) :
    written.spelling ∉ bindings.params := by
  intro bound
  obtain ⟨name, args, array⟩ := written
  cases args with
  | cons first rest => exact (distinctive _ bound).1 (mem_spelling_of_args (by simp))
  | nil =>
      cases array with
      | true => simp [resolve?] at unresolved
      | false =>
          have visible := inScope name (by simpa [TypeRef.spelling] using bound)
          simp [resolve?, parameterSymbol?, visible] at unresolved

mutual

theorem resolve_instantiate_apply (declared : index.Declared)
    (inScope : ∀ name ∈ bindings.params, name ∈ scope.typeParams)
    (distinctive : ∀ name ∈ bindings.params, index.Distinctive name) (written : TypeRef) :
    index.resolve? scope bindings written =
      (index.resolve? scope [] written).map bindings.instantiate := by
  match written with
  | ⟨name, args, array⟩ =>
      have arguments := resolve_all_instantiate declared inScope distinctive args
      have parameter := parameter_symbol_instantiate inScope name
      rw [resolve?, resolve?]
      split
      · rw [Option.map_some, bindings.instantiate_of_declared (by decide)]
        rfl
      · have open' : (if args.isEmpty then parameterSymbol? scope bindings name else none) =
            (if args.isEmpty then parameterSymbol? scope [] name else none).map
              bindings.instantiate := by
          split
          · exact parameter
          · rfl
        rw [open', arguments]
        cases (if args.isEmpty then parameterSymbol? scope [] name else none) with
        | some type => rfl
        | none =>
            dsimp only [Option.map_none]
            cases keyword : keywordType? name with
            | some full =>
                exact congrArg some
                  (keyword_symbol_instantiate declared distinctive keyword).symm
            | none =>
                cases index.lookupKey? name args.length scope with
                | none => rfl
                | some key => exact (symbol_for_map_instantiate declared bindings key _).symm

theorem resolve_all_instantiate (declared : index.Declared)
    (inScope : ∀ name ∈ bindings.params, name ∈ scope.typeParams)
    (distinctive : ∀ name ∈ bindings.params, index.Distinctive name) (args : List TypeRef) :
    resolve?.resolveAll index scope bindings args =
      (resolve?.resolveAll index scope [] args).map bindings.instantiate := by
  match args with
  | [] => rfl
  | arg :: rest =>
      rw [resolve?.resolveAll, resolve?.resolveAll, List.map_cons,
        resolve_instantiate_apply declared inScope distinctive arg,
        resolve_all_instantiate declared inScope distinctive rest]
      cases unresolved : index.resolve? scope [] arg with
      | some type => rfl
      | none =>
          have free := spelling_not_mem_params inScope distinctive unresolved
          simp [Substitution.instantiate_of_name_of_free free]

end

end Resolve

end Index

end ReleaseAudit.Declarations
