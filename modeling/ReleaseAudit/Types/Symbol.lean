import ReleaseAudit.Text.Blank

/-!
# Resolved types and symbols
-/

namespace ReleaseAudit.Types

set_option autoImplicit false

def insertName (name : String) : List String → List String
  | [] => [name]
  | head :: rest =>
      if name = head then head :: rest
      else if name < head then name :: head :: rest
      else head :: insertName name rest

def sortNames (names : List String) : List String :=
  names.foldr insertName []

theorem mem_insert_name {name other : String} {names : List String} :
    other ∈ insertName name names ↔ other = name ∨ other ∈ names := by
  induction names with
  | nil => simp [insertName]
  | cons head rest ih =>
      simp only [insertName]
      split
      · grind
      · split <;> grind

theorem mem_sort_names {name : String} {names : List String} :
    name ∈ sortNames names ↔ name ∈ names := by
  induction names with
  | nil => simp [sortNames]
  | cons head rest ih =>
      rw [sortNames, List.foldr_cons, mem_insert_name]
      exact (or_congr_right ih).trans List.mem_cons.symm

inductive TypeKind where
  | classType
  | structType
  | interfaceType
  | undeclared
deriving DecidableEq, Repr

/-- Table key of a type, telling `Task` from `Task<T>`. -/
def typeKey (fullName : String) (arity : Nat) : String :=
  if arity = 0 then fullName else fullName ++ "`" ++ toString arity

structure TypeSymbol where
  fullName : String
  typeArguments : List TypeSymbol
  supertypes : List String
  kind : TypeKind
deriving Repr

namespace TypeSymbol

def ofName (name : String) : TypeSymbol :=
  ⟨name, [], [], .undeclared⟩

/-- The type all arrays resolve to. -/
def array : TypeSymbol :=
  ⟨"System.Array", [], [], .classType⟩

/-- The type has that name, or it is among its supertypes. -/
def implements (type : TypeSymbol) (fullName : String) : Bool :=
  type.fullName == fullName || type.supertypes.contains fullName

def simpleName (type : TypeSymbol) : String :=
  match Text.splitLast? '.' type.fullName with
  | some (_, name) => name
  | none => type.fullName

def key (type : TypeSymbol) : String :=
  typeKey type.fullName type.typeArguments.length

def spelling : TypeSymbol → String
  | ⟨fullName, typeArguments, _, _⟩ =>
      if typeArguments.isEmpty then fullName
      else fullName ++ "<" ++ ", ".intercalate (spellings typeArguments) ++ ">"
where
  spellings : List TypeSymbol → List String
    | [] => []
    | type :: rest => spelling type :: spellings rest

end TypeSymbol

inductive MemberKind where
  | method
  | constructor
  | field
  | property
deriving DecidableEq, Repr

inductive SymbolKind where
  | method
  | constructor
  | field
  | property
  | localVariable
  | parameter
deriving DecidableEq, Repr

structure Symbol where
  kind : SymbolKind
  name : String
  containingType : Option TypeSymbol
  /-- Qualified parameter types, `?` where unknown. -/
  parameters : List String
  isStatic : Bool
  isExtension : Bool
deriving Repr

namespace Symbol

def ofName (kind : SymbolKind) (name : String) : Symbol :=
  ⟨kind, name, none, [], false, false⟩

def isMember (symbol : Symbol) : Bool :=
  symbol.kind == .field || symbol.kind == .property

end Symbol

end ReleaseAudit.Types
