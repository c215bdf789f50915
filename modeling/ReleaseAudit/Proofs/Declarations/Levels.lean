import ReleaseAudit.Declarations.Index

/-!
# Directives level by level

The directives of a scope come from several containers, one level each. When
levels are put one after the other, imports are tried in that order, and the
alias of the last level hides those of the levels before. So a lookup is
described by its levels: what the namespaces and types around decide, then the
aliases from the last level back, then the imports from the first level on.
-/

namespace ReleaseAudit.Declarations

set_option autoImplicit false

open ReleaseAudit.Types (typeKey)

namespace Usings

def append (usings later : Usings) : Usings where
  namespaces := usings.namespaces ++ later.namespaces
  aliases := later.aliases ++ usings.aliases
  staticTypes := usings.staticTypes ++ later.staticTypes

def ofLevels (levels : List Usings) : Usings :=
  levels.foldr append {}

def level (container : Source.Node) : Usings :=
  addFrom {} container

@[simp] theorem append_empty (usings : Usings) : usings.append {} = usings := by
  simp [append]

@[simp] theorem empty_append (usings : Usings) : append {} usings = usings := by
  simp [append]

theorem append_assoc (first second third : Usings) :
    (first.append second).append third = first.append (second.append third) := by
  simp [append]

@[simp] theorem of_levels_nil : ofLevels [] = {} := rfl

@[simp] theorem of_levels_cons (usings : Usings) (levels : List Usings) :
    ofLevels (usings :: levels) = usings.append (ofLevels levels) := rfl

@[simp] theorem of_levels_append (levels later : List Usings) :
    ofLevels (levels ++ later) = (ofLevels levels).append (ofLevels later) := by
  induction levels with
  | nil => simp
  | cons usings rest ih => simp [ih, append_assoc]

theorem add_directive_eq (usings : Usings) (text : String) :
    usings.addDirective text = usings.append (addDirective {} text) := by
  unfold addDirective
  dsimp only
  split
  · simp
  · next target _ =>
      split
      · simp [append]
      · split
        · simp [append]
        · split <;> simp [append]

theorem add_from_eq (usings : Usings) (container : Source.Node) :
    usings.addFrom container = usings.append (level container) := by
  unfold level addFrom
  generalize container.partsOf .usingDirective = directives
  induction directives generalizing usings with
  | nil => simp
  | cons directive rest ih =>
      rw [List.foldl_cons, List.foldl_cons, ih, ih (addDirective {} _), add_directive_eq usings,
        append_assoc]

end Usings

namespace Index

variable (index : Index)

def declaredKey? (arity : Nat) (fullName : String) : Option String :=
  if (index.get? (typeKey fullName arity)).isSome then some (typeKey fullName arity) else none

def lexicalKey? (name : String) (arity : Nat) (scope : NameScope) : Option String :=
  ((scope.enclosingTypes.reverse.filterMap index.get?).map
      (fun outer => outer.fullName ++ "." ++ name) ++
    (namespaceChain scope.namespaceName).map (fun outer => qualify outer name)).findSome?
    (index.declaredKey? arity)

/-- The first level that has an alias decides, whether its target is declared or not. -/
def aliasKey? (name : String) (arity : Nat) (levels : List Usings) : Option String :=
  (levels.findSome? fun level => aliasTarget? level name).bind (index.declaredKey? arity)

def importedKey? (name : String) (arity : Nat) (level : Usings) : Option String :=
  level.namespaces.findSome? fun imported => index.declaredKey? arity (qualify imported name)

/-- The first level that imports a declared type decides. -/
def importKey? (name : String) (arity : Nat) (levels : List Usings) : Option String :=
  levels.findSome? (index.importedKey? name arity)

def implicitKey? (name : String) (arity : Nat) : Option String :=
  index.importedKey? name arity { namespaces := index.implicitUsings }

theorem lookup_key_eq_find_some (name : String) (arity : Nat) (scope : NameScope) :
    index.lookupKey? name arity scope =
      (index.readings name scope).findSome? (index.declaredKey? arity) := by
  unfold lookupKey?
  induction index.readings name scope with
  | nil => rfl
  | cons full rest ih =>
      rw [List.map_cons, List.find?_cons, List.findSome?_cons, ih]
      unfold declaredKey?
      cases (index.get? (typeKey full arity)).isSome <;> rfl

theorem alias_target_append (usings later : Usings) (name : String) :
    aliasTarget? (usings.append later) name =
      (aliasTarget? later name).or (aliasTarget? usings name) := by
  unfold aliasTarget? Usings.alias? Usings.append
  simp only [List.lookup_append, Option.map_or]

theorem alias_target_of_levels (levels : List Usings) (name : String) :
    aliasTarget? (Usings.ofLevels levels) name =
      levels.reverse.findSome? fun level => aliasTarget? level name := by
  induction levels with
  | nil => rfl
  | cons level rest ih =>
      rw [Usings.of_levels_cons, alias_target_append, ih, List.reverse_cons,
        List.findSome?_append, List.findSome?_singleton]

theorem imported_key_of_levels (name : String) (arity : Nat) (levels : List Usings) :
    index.importedKey? name arity (Usings.ofLevels levels) =
      index.importKey? name arity levels := by
  induction levels with
  | nil => rfl
  | cons level rest ih =>
      have parted : index.importedKey? name arity (Usings.ofLevels (level :: rest)) =
          (index.importedKey? name arity level).or
            (index.importedKey? name arity (Usings.ofLevels rest)) := List.findSome?_append
      rw [parted, ih, importKey?, importKey?, List.findSome?_cons]
      cases index.importedKey? name arity level <;> rfl

/-- A lookup asks the surroundings, then the aliases from the last level back, then the imports
from the first level on, then the namespaces imported everywhere. -/
theorem lookup_key_eq_of_levels {scope : NameScope} {levels : List Usings}
    (directives : scope.usings = Usings.ofLevels levels) (name : String) (arity : Nat) :
    index.lookupKey? name arity scope =
      (index.lexicalKey? name arity scope).or
        ((index.aliasKey? name arity levels.reverse).or
          ((index.importKey? name arity levels).or (index.implicitKey? name arity))) := by
  have aliases : (aliasTarget? scope.usings name).toList.findSome? (index.declaredKey? arity) =
      index.aliasKey? name arity levels.reverse := by
    rw [aliasKey?, ← alias_target_of_levels, ← directives]
    cases aliasTarget? scope.usings name with
    | none => rfl
    | some target => simp
  have imports : ((scope.usings.namespaces ++ index.implicitUsings).map
      fun imported => qualify imported name).findSome? (index.declaredKey? arity) =
      (index.importKey? name arity levels).or (index.implicitKey? name arity) := by
    rw [← imported_key_of_levels, ← directives, List.findSome?_map, List.findSome?_append]
    rfl
  rw [lookup_key_eq_find_some, readings, List.findSome?_append, List.findSome?_append, aliases,
    imports, Option.or_assoc]
  rfl

end Index

end ReleaseAudit.Declarations
