import ReleaseAudit.Inference.Model
import ReleaseAudit.Proofs.Declarations.Instantiation
import ReleaseAudit.Proofs.Settings.KnownKinds

/-!
# Results of calls on generic types

The result of a call is the written result type with the type arguments put in:
those of the receiver for the parameters of its type, those of the call for the
parameters of the member. A receiver has arguments for the type that it is of
and not for the types above it, so an inherited member takes none from it.
-/

namespace ReleaseAudit.Declarations

set_option autoImplicit false

open Source (Document)

structure TypeDecl.Proper (decl : TypeDecl) : Prop where
  kind : decl.kind ≠ .undeclared
  params : ∀ name ∈ decl.typeParams, name ∈ decl.scope.typeParams

theorem TypeSite.proper_to_decl (site : TypeSite) (index : Index) : (site.toDecl index).Proper := by
  constructor
  · change site.kind ≠ .undeclared
    unfold TypeSite.kind
    split <;> decide
  · intro name member
    exact List.mem_append_right _ member

theorem Catalog.proper_type_decl {known : KnownType} {decl : TypeDecl}
    (kind : known.kind ≠ .undeclared) (found : typeDecl? known = some decl) : decl.Proper := by
  obtain ⟨written, -, rfl⟩ := Option.map_eq_some_iff.mp found
  exact ⟨kind, fun name member => member⟩

namespace Index

def Proper (index : Index) : Prop :=
  ∀ decl ∈ index.types, decl.Proper

theorem Proper.insert {index : Index} (proper : index.Proper) {decl : TypeDecl}
    (properDecl : decl.Proper) : (index.insert decl).Proper := by
  intro entry member
  unfold Index.insert at member
  split at member
  · obtain ⟨existing, inTypes, rfl⟩ := List.mem_map.mp member
    obtain ⟨kind, params⟩ := proper existing inTypes
    split
    · exact ⟨kind, params⟩
    · exact ⟨kind, params⟩
  · rcases List.mem_append.mp member with inTypes | isNew
    · exact proper entry inTypes
    · rw [List.mem_singleton.mp isNew]
      exact properDecl

theorem Proper.add_document {index : Index} (proper : index.Proper) (document : Document) :
    (index.addDocument document).Proper := by
  refine List.foldlRecOn (motive := Proper) _ _ proper ?_
  intro entered properEntered site _
  exact properEntered.insert (site.proper_to_decl entered)

theorem Proper.finalize {index : Index} (proper : index.Proper) : index.finalize.Proper := by
  intro decl member
  obtain ⟨linked, inLinked, rfl⟩ := List.mem_map.mp member
  obtain ⟨entry, inTypes, rfl⟩ := List.mem_map.mp inLinked
  obtain ⟨kind, params⟩ := proper entry inTypes
  exact ⟨kind, params⟩

end Index

theorem Catalog.proper_to_index {settings : Settings} (declared : settings.Declared) :
    (Catalog.ofSettings settings).toIndex.Proper := by
  refine List.foldlRecOn (motive := Index.Proper) _ _ ?_ ?_
  · intro decl member
    cases member
  · intro index proper decl member
    obtain ⟨known, listed, found⟩ := List.mem_filterMap.mp member
    exact proper.insert (proper_type_decl (declared known listed) found)

end ReleaseAudit.Declarations

namespace ReleaseAudit.Inference

set_option autoImplicit false

open Declarations (Catalog Index MemberDecl NameScope Substitution TypeDecl)
open Source (Document)
open ReleaseAudit.Types (TypeRef TypeSymbol)

theorem proper_index_of {settings : Settings} (declared : settings.Declared)
    (documents : List Document) : (indexOf (Catalog.ofSettings settings) documents).Proper := by
  refine Index.Proper.finalize (List.foldlRecOn (motive := Index.Proper) _ _ ?_ ?_)
  · exact Catalog.proper_to_index declared
  · intro index proper document _
    exact proper.add_document document

def memberScope (decl : TypeDecl) (member : MemberDecl) : NameScope :=
  { decl.scope with typeParams := decl.scope.typeParams ++ member.typeParams }

/-- Result type of a member with all generic parameters left open. -/
def openResult? (index : Index) (decl : TypeDecl) (member : MemberDecl) : Option TypeSymbol :=
  member.type.bind (index.resolve? (memberScope decl member) [])

/-- Bindings that a receiver and the call give to the parameters of the type and the member. -/
def callBindings (decl : TypeDecl) (member : MemberDecl) (receiver : Option TypeSymbol)
    (typeArguments : List TypeSymbol) : Substitution :=
  (receiverBindings decl receiver).bindAll member.typeParams typeArguments

theorem mem_params_call_bindings {decl : TypeDecl} {member : MemberDecl}
    {receiver : Option TypeSymbol} {typeArguments : List TypeSymbol} {name : String}
    (bound : name ∈ (callBindings decl member receiver typeArguments).params) :
    name ∈ decl.typeParams ++ member.typeParams := by
  rcases Substitution.mem_params_bind_all bound with ofMember | ofReceiver
  · exact List.mem_append_right _ ofMember
  · apply List.mem_append_left
    unfold receiverBindings at ofReceiver
    split at ofReceiver
    · split at ofReceiver
      · rcases Substitution.mem_params_bind_all ofReceiver with ofType | none
        · exact ofType
        · cases none
      · cases ofReceiver
    · cases ofReceiver

theorem return_type_bind_call {index : Index} (proper : index.Proper) {decl : TypeDecl}
    (inTypes : decl ∈ index.types) {member : MemberDecl}
    (distinctive : ∀ name ∈ decl.typeParams ++ member.typeParams, index.Distinctive name)
    (written : member.returnsTypeArgument = none) (receiver : Option TypeSymbol)
    (typeArguments : List TypeSymbol) (isExtension : Bool) :
    (bindCall index decl member receiver typeArguments isExtension).returnType =
      (openResult? index decl member).map
        (callBindings decl member receiver typeArguments).instantiate := by
  have declared : index.Declared := fun entry listed => (proper entry listed).kind
  have inScope : ∀ name ∈ (callBindings decl member receiver typeArguments).params,
      name ∈ (memberScope decl member).typeParams := by
    intro name bound
    rcases List.mem_append.mp (mem_params_call_bindings bound) with ofType | ofMember
    · exact List.mem_append_left _ ((proper decl inTypes).params name ofType)
    · exact List.mem_append_right _ ofMember
  have resolved := Index.resolve_instantiate_apply declared inScope fun name bound =>
    distinctive name (mem_params_call_bindings bound)
  have result : (bindCall index decl member receiver typeArguments isExtension).returnType =
      member.type.bind (index.resolve? (memberScope decl member)
        (callBindings decl member receiver typeArguments)) := by
    simp only [bindCall, written]
    rfl
  rw [result, openResult?]
  cases member.type with
  | none => rfl
  | some type => exact resolved type

/-- Resolving under bindings is resolving with the parameters open and putting the bindings in,
for every written type, wherever the bound parameters are in sight and cannot be mistaken for
types known by name only. So, with any settings that can be loaded, a call on a receiver of the
declaring type has the written result with the arguments of the receiver and of the call put
in; on a receiver of another type only those of the call are. -/
theorem resolve_instantiate (settings : Settings) (documents : List Document) :
    (∀ (index : Index) (scope : NameScope) (bindings : Substitution) (written : TypeRef),
      index.Declared →
      (∀ name ∈ bindings.params, name ∈ scope.typeParams) →
      (∀ name ∈ bindings.params, index.Distinctive name) →
      index.resolve? scope bindings written =
        (index.resolve? scope [] written).map bindings.instantiate) ∧
    (∀ (folder : Files.Folder) (path : Option String),
      Settings.load folder path = .ok settings → settings.Declared) ∧
    (settings.Declared →
      ∀ (key : String) (decl : TypeDecl) (member : MemberDecl) (receiver : TypeSymbol)
        (typeArguments : List TypeSymbol) (isExtension : Bool),
      (indexOf (Catalog.ofSettings settings) documents).get? key = some decl →
      (∀ name ∈ decl.typeParams ++ member.typeParams,
        (indexOf (Catalog.ofSettings settings) documents).Distinctive name) →
      member.returnsTypeArgument = none →
      (receiver.key = decl.key →
        (bindCall (indexOf (Catalog.ofSettings settings) documents) decl member (some receiver)
            typeArguments isExtension).returnType =
          (openResult? (indexOf (Catalog.ofSettings settings) documents) decl member).map
            (Substitution.bindAll (Substitution.bindAll [] decl.typeParams receiver.typeArguments)
              member.typeParams typeArguments).instantiate) ∧
      (receiver.key ≠ decl.key →
        (bindCall (indexOf (Catalog.ofSettings settings) documents) decl member (some receiver)
            typeArguments isExtension).returnType =
          (openResult? (indexOf (Catalog.ofSettings settings) documents) decl member).map
            (Substitution.bindAll [] member.typeParams typeArguments).instantiate)) := by
  refine ⟨fun index scope bindings written declared inScope distinctive =>
    Index.resolve_instantiate_apply declared inScope distinctive written,
    fun folder path loaded => Settings.declared_load loaded, ?_⟩
  intro declared key decl member receiver typeArguments isExtension found distinctive written
  have result := return_type_bind_call (proper_index_of declared documents)
    (List.mem_of_find?_eq_some found) distinctive written (some receiver) typeArguments isExtension
  constructor
  · intro same
    rw [result, callBindings, receiverBindings, if_pos (by simpa using same)]
  · intro other
    rw [result, callBindings, receiverBindings, if_neg (by simpa using other)]

def methodOf (name returns : String) : KnownMember :=
  ⟨name, .method, some returns, none, false, false, none⟩

/-- `D<T>` extends `B<T>`, whose method returns `T`; `X` has a parameter with the full name of a
keyword; and the method of `F<T>` is declared to return its own type argument. -/
def catalogSettings : Settings where
  knownTypes :=
    [⟨"A", .classType, [], []⟩,
      ⟨"B<T>", .classType, [], [methodOf "M" "T"]⟩,
      ⟨"D<T>", .classType, ["B<T>"], [methodOf "N" "B<D<T>>"]⟩,
      ⟨"X<System.Int32>", .classType, [], [methodOf "M" "int"]⟩,
      ⟨"F<T>", .classType, [],
        [{ methodOf "M" "T" with returnsTypeArgument := some 0 }]⟩]

def catalogIndex : Index := indexOf (Catalog.ofSettings catalogSettings) []

def constructed (name : String) : TypeSymbol :=
  ⟨name, [⟨"A", [], [], .classType⟩], [], .classType⟩

/-- `B<D<T>>` -/
def nestedType : TypeRef :=
  ⟨"B", [⟨"D", [⟨"T", [], false⟩], false⟩], false⟩

theorem resolve_instantiate_nested :
    catalogSettings.Declared ∧ catalogIndex.Declared ∧
    ∃ decl member, catalogIndex.get? "D\x601" = some decl ∧ member ∈ decl.members ∧
      (∀ name ∈ (receiverBindings decl (some (constructed "D"))).params,
        name ∈ decl.scope.typeParams ∧ catalogIndex.Distinctive name) ∧
      (catalogIndex.resolve? decl.scope (receiverBindings decl (some (constructed "D")))
        nestedType).map TypeSymbol.spelling = some "B<D<A>>" ∧
      (∀ name ∈ decl.typeParams ++ member.typeParams, catalogIndex.Distinctive name) ∧
      member.returnsTypeArgument = none ∧ (constructed "D").key = decl.key ∧
      (bindCall catalogIndex decl member (some (constructed "D")) [] false).returnType.map
        TypeSymbol.spelling = some "B<D<A>>" := by
  have kinds : catalogSettings.Declared := by decide
  have entries : catalogIndex.Declared := by decide +kernel
  have known : ((catalogIndex.get? "D\x601").any fun decl => decl.members.any fun member =>
      decide (∀ name ∈ (receiverBindings decl (some (constructed "D"))).params,
        name ∈ decl.scope.typeParams ∧ catalogIndex.Distinctive name) &&
      decide (∀ name ∈ decl.typeParams ++ member.typeParams, catalogIndex.Distinctive name) &&
      decide (member.returnsTypeArgument = none ∧ (constructed "D").key = decl.key ∧
        ((catalogIndex.resolve? decl.scope [] nestedType).map
          (receiverBindings decl (some (constructed "D"))).instantiate).map
            TypeSymbol.spelling = some "B<D<A>>" ∧
        ((openResult? catalogIndex decl member).map
          (Substitution.bindAll
            (Substitution.bindAll [] decl.typeParams (constructed "D").typeArguments)
            member.typeParams []).instantiate).map TypeSymbol.spelling = some "B<D<A>>")) =
      true := by
    decide +kernel
  obtain ⟨decl, found, known⟩ := (Option.any_eq_true _ _).mp known
  obtain ⟨member, declared, known⟩ := List.any_eq_true.mp known
  obtain ⟨known, results⟩ := Bool.and_eq_true_iff.mp known
  obtain ⟨bound, distinctive⟩ := Bool.and_eq_true_iff.mp known
  obtain ⟨written, same, resolved, returned⟩ := of_decide_eq_true results
  have apart := of_decide_eq_true bound
  obtain ⟨types, -, calls⟩ := resolve_instantiate catalogSettings []
  have type := types catalogIndex decl.scope (receiverBindings decl (some (constructed "D")))
    nestedType entries (fun name member => (apart name member).1)
    (fun name member => (apart name member).2)
  have call := (calls kinds "D\x601" decl member (constructed "D") [] false found
    (of_decide_eq_true distinctive) written).1 same
  refine ⟨kinds, entries, decl, member, found, declared, apart, ?_,
    of_decide_eq_true distinctive, written, same, ?_⟩
  · exact (congrArg (Option.map TypeSymbol.spelling) type).trans resolved
  · exact (congrArg (Option.map TypeSymbol.spelling) call).trans returned

theorem breadth_first_derived :
    Declarations.breadthFirst catalogIndex.keys catalogIndex.baseKeysOf ["D\x601"] [] =
      ["D\x601", "B\x601"] := by
  have base : catalogIndex.baseKeysOf "D\x601" = ["B\x601"] := by decide +kernel
  have top : catalogIndex.baseKeysOf "B\x601" = [] := by decide +kernel
  rw [Declarations.breadthFirst, dif_pos (by decide +kernel), base, List.nil_append,
    Declarations.breadthFirst, dif_pos (by decide +kernel), top, List.append_nil,
    Declarations.breadthFirst]

/-- A keyword stays what it is, though a bound parameter has its full name; an inherited method
takes nothing from its receiver; and a method that is declared to return its type argument returns
that, whatever type is written. -/
theorem resolve_instantiate_fails :
    (∃ decl, catalogIndex.get? "X\x601" = some decl ∧ (constructed "X").key = decl.key ∧
      (∀ name ∈ (receiverBindings decl (some (constructed "X"))).params,
        name ∈ decl.scope.typeParams) ∧
      catalogIndex.resolve? decl.scope (receiverBindings decl (some (constructed "X")))
          ⟨"int", [], false⟩ ≠
        (catalogIndex.resolve? decl.scope [] ⟨"int", [], false⟩).map
          (receiverBindings decl (some (constructed "X"))).instantiate) ∧
    (∃ found, catalogIndex.findMember? (constructed "D").key "M" MemberDecl.isMethod (some 0) =
        some found ∧
      (bindCall catalogIndex found.1 found.2 (some (constructed "D")) [] false).returnType.map
        TypeSymbol.spelling = some "T") ∧
    ∃ decl member, catalogIndex.get? "F\x601" = some decl ∧ member ∈ decl.members ∧
      (constructed "F").key = decl.key ∧
      ((openResult? catalogIndex decl member).map
        (receiverBindings decl (some (constructed "F"))).instantiate).map TypeSymbol.spelling =
          some "A" ∧
      (bindCall catalogIndex decl member (some (constructed "F")) [constructed "D"]
        false).returnType.map TypeSymbol.spelling = some "D<A>" := by
  refine ⟨?_, ?_, ?_⟩
  · have known : ((catalogIndex.get? "X\x601").any fun decl =>
        decide ((constructed "X").key = decl.key) &&
        decide (∀ name ∈ (receiverBindings decl (some (constructed "X"))).params,
          name ∈ decl.scope.typeParams) &&
        decide ((catalogIndex.resolve? decl.scope
            (receiverBindings decl (some (constructed "X"))) ⟨"int", [], false⟩).map
              TypeSymbol.fullName ≠
          ((catalogIndex.resolve? decl.scope [] ⟨"int", [], false⟩).map
            (receiverBindings decl (some (constructed "X"))).instantiate).map
              TypeSymbol.fullName)) = true := by
      decide +kernel
    obtain ⟨decl, found, known⟩ := (Option.any_eq_true _ _).mp known
    obtain ⟨known, differs⟩ := Bool.and_eq_true_iff.mp known
    obtain ⟨same, inScope⟩ := Bool.and_eq_true_iff.mp known
    refine ⟨decl, found, of_decide_eq_true same, of_decide_eq_true inScope, ?_⟩
    intro equal
    exact of_decide_eq_true differs (congrArg (Option.map TypeSymbol.fullName) equal)
  · have known : ((catalogIndex.findMember? (constructed "D").key "M" MemberDecl.isMethod
        (some 0)).any fun found => decide ((bindCall catalogIndex found.1 found.2
          (some (constructed "D")) [] false).returnType.map TypeSymbol.spelling = some "T")) =
        true := by
      have key : (constructed "D").key = "D\x601" := by decide +kernel
      rw [key, Index.findMember?, Index.membersNamed, Index.lineage, breadth_first_derived]
      decide +kernel
    obtain ⟨found, isFound, spelled⟩ := (Option.any_eq_true _ _).mp known
    exact ⟨found, isFound, of_decide_eq_true spelled⟩
  · have known : ((catalogIndex.get? "F\x601").any fun decl => decl.members.any fun member =>
        decide ((constructed "F").key = decl.key ∧
          ((openResult? catalogIndex decl member).map
            (receiverBindings decl (some (constructed "F"))).instantiate).map
              TypeSymbol.spelling = some "A" ∧
          (bindCall catalogIndex decl member (some (constructed "F")) [constructed "D"]
            false).returnType.map TypeSymbol.spelling = some "D<A>")) = true := by
      decide +kernel
    obtain ⟨decl, found, known⟩ := (Option.any_eq_true _ _).mp known
    obtain ⟨member, declared, known⟩ := List.any_eq_true.mp known
    exact ⟨decl, member, found, declared, of_decide_eq_true known⟩

end ReleaseAudit.Inference
