import ReleaseAudit.Declarations.Basic
import ReleaseAudit.Declarations.Reach

/-!
# The table of declarations

Source types and catalogued types share one table, keyed by qualified name and
number of generic parameters. A name is looked up among nested types, then
along the namespaces, then through an alias, then through imports.
-/

namespace ReleaseAudit.Declarations

set_option autoImplicit false

open ReleaseAudit.Types (TypeRef TypeSymbol keywordType? sortNames typeKey)

structure Extension where
  name : String
  key : String
  position : Nat
deriving DecidableEq, Repr

structure Index where
  /-- Declared types in order of their first declaration, one per key. -/
  types : List TypeDecl := []
  extensions : List Extension := []
  implicitUsings : List String := []

/-- Bindings of generic parameters, the latest first. -/
abbrev Substitution := List (String × TypeSymbol)

namespace Substitution

def bindAll (bindings : Substitution) (params : List String) (arguments : List TypeSymbol) :
    Substitution :=
  (params.zip arguments).reverse ++ bindings

end Substitution

namespace Index

def keys (index : Index) : List String :=
  index.types.map TypeDecl.key

def get? (index : Index) (key : String) : Option TypeDecl :=
  index.types.find? fun decl => decl.key == key

def extensionsAmong (key : String) (offset : Nat) (members : List MemberDecl) : List Extension :=
  (members.zipIdx offset).filterMap fun entry =>
    if entry.1.isExtension then some ⟨entry.1.name, key, entry.2⟩ else none

/-- Adds a declaration; a further part of a known type adds its bases and members to it. -/
def insert (index : Index) (decl : TypeDecl) : Index :=
  match index.get? decl.key with
  | some existing =>
      { index with
        types := index.types.map fun entry =>
          if entry.key = decl.key then
            { entry with
              bases := entry.bases ++ decl.bases
              members := entry.members ++ decl.members }
          else entry
        extensions :=
          index.extensions ++ extensionsAmong decl.key existing.members.length decl.members }
  | none =>
      { index with
        types := index.types ++ [decl]
        extensions := index.extensions ++ extensionsAmong decl.key 0 decl.members }

def aliasTarget? (usings : Usings) (name : String) : Option String :=
  let (head, tail) :=
    match Text.splitFirst? '.' name with
    | some (head, tail) => (head, some tail)
    | none => (name, none)
  (usings.alias? head).map fun long =>
    let target := ((TypeRef.parse? long).map TypeRef.name).getD long
    match tail with
    | some tail => target ++ "." ++ tail
    | none => target

/-- Qualified names that a written name may stand for, the first declared one winning. -/
def readings (index : Index) (name : String) (scope : NameScope) : List String :=
  (scope.enclosingTypes.reverse.filterMap index.get?).map
      (fun outer => outer.fullName ++ "." ++ name) ++
    (namespaceChain scope.namespaceName).map (fun outer => qualify outer name) ++
    (aliasTarget? scope.usings name).toList ++
    (scope.usings.namespaces ++ index.implicitUsings).map fun imported => qualify imported name

def lookupKey? (index : Index) (name : String) (arity : Nat) (scope : NameScope) :
    Option String :=
  ((index.readings name scope).map fun full => typeKey full arity).find? fun key =>
    (index.get? key).isSome

def symbolFor? (index : Index) (key : String) (typeArguments : List TypeSymbol) :
    Option TypeSymbol :=
  (index.get? key).map fun decl =>
    ⟨decl.fullName, typeArguments, decl.supertypes, decl.kind⟩

def parameterSymbol? (scope : NameScope) (bindings : Substitution) (name : String) :
    Option TypeSymbol :=
  (bindings.lookup name).or
    (if scope.typeParams.contains name then some (TypeSymbol.ofName name) else none)

def resolve? (index : Index) (scope : NameScope) (bindings : Substitution) :
    TypeRef → Option TypeSymbol
  | ⟨name, args, array⟩ =>
      if array then some TypeSymbol.array
      else
        match (if args.isEmpty then parameterSymbol? scope bindings name else none) with
        | some bound => some bound
        | none =>
            match keywordType? name with
            | some full => some ((index.symbolFor? full []).getD (TypeSymbol.ofName full))
            | none =>
                match index.lookupKey? name args.length scope with
                | some key => index.symbolFor? key (resolveAll args)
                | none => none
where
  resolveAll : List TypeRef → List TypeSymbol
    | [] => []
    | arg :: rest =>
        (resolve? index scope bindings arg).getD (TypeSymbol.ofName arg.spelling) ::
          resolveAll rest

/-- Keys of the bases of a declaration that are declared, itself left out. -/
def basesOf (index : Index) (decl : TypeDecl) : List String :=
  (decl.bases.filterMap fun base => index.lookupKey? base.name base.arity decl.scope).filter
    fun key => key != decl.key

def baseKeysOf (index : Index) (key : String) : List String :=
  ((index.get? key).map TypeDecl.baseKeys).getD []

def supertypesOf (index : Index) (decl : TypeDecl) : List String :=
  sortNames ((breadthFirst index.keys index.baseKeysOf decl.baseKeys []).filterMap fun key =>
    (index.get? key).map TypeDecl.fullName)

def withBases (index : Index) (decl : TypeDecl) : TypeDecl :=
  { decl with baseKeys := index.basesOf decl }

def withSupertypes (index : Index) (decl : TypeDecl) : TypeDecl :=
  { decl with supertypes := index.supertypesOf decl }

def linkBases (index : Index) : Index :=
  { index with types := index.types.map index.withBases }

def closeSupertypes (index : Index) : Index :=
  { index with types := index.types.map index.withSupertypes }

def finalize (index : Index) : Index :=
  index.linkBases.closeSupertypes

def lineage (index : Index) (key : String) : List TypeDecl :=
  (breadthFirst index.keys index.baseKeysOf [key] []).filterMap index.get?

def membersNamed (index : Index) (key name : String) (wanted : MemberDecl → Bool) :
    List (TypeDecl × MemberDecl) :=
  (index.lineage key).flatMap fun decl =>
    (decl.members.filter fun member => member.name == name && wanted member).map fun member =>
      (decl, member)

/-- The first candidate that the test accepts, or else the first of all. -/
def preferred? {α : Type} (test : α → Bool) (candidates : List α) : Option α :=
  (candidates.find? test).or candidates.head?

def findMember? (index : Index) (key name : String) (wanted : MemberDecl → Bool)
    (count : Option Nat) : Option (TypeDecl × MemberDecl) :=
  preferred? (fun found => count.all found.2.accepts) (index.membersNamed key name wanted)

/-- A receiver may stand for the first parameter of an extension method. -/
def appliesTo (index : Index) (receiver : TypeSymbol) (decl : TypeDecl) (member : MemberDecl) :
    Bool :=
  match (member.parameters.bind List.head?).bind ParameterDecl.type with
  | none => true
  | some written =>
      (written.args.isEmpty && member.typeParams.contains written.name) ||
        (keywordType? written.name).getD written.name == "System.Object" ||
        (index.resolve? decl.scope [] written).any fun parameter =>
          receiver.implements parameter.fullName

/-- An extension method for a receiver, preferably one that takes `count` further arguments. -/
def findExtension? (index : Index) (name : String) (receiver : TypeSymbol) (count : Nat) :
    Option (TypeDecl × MemberDecl) :=
  let candidates := index.extensions.filterMap fun extension =>
    if extension.name == name then do
      let decl ← index.get? extension.key
      let member ← decl.members[extension.position]?
      if index.appliesTo receiver decl member then some (decl, member) else none
    else none
  preferred? (fun found => found.2.accepts (count + 1)) candidates

end Index

end ReleaseAudit.Declarations
