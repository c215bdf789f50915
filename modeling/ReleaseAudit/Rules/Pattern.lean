import ReleaseAudit.Settings.Basic
import ReleaseAudit.Types.Reference

/-!
# Method patterns

A pattern is a method name, or a name with the qualified types of its
parameters. A rule ties patterns to a type; it covers the methods that the type
or a type below it declares.
-/

namespace ReleaseAudit.Rules

set_option autoImplicit false

open ReleaseAudit.Types (Symbol keywordType?)

structure MethodPattern where
  name : String
  /-- Absent when any parameters fit. -/
  parameters : Option (List String)
deriving DecidableEq, Repr

namespace MethodPattern

def parameterOf (text : String) : String :=
  let type := Text.trim text
  (keywordType? type).getD type

def parametersOf (list : String) : List String :=
  if (Text.trim list).isEmpty then [] else (Text.split ',' list).map parameterOf

/-- Reads a pattern that has no blanks around it. -/
def ofTrimmed? (text : String) : Option MethodPattern :=
  match Text.splitFirst? '(' text with
  | none =>
      if text.isEmpty || text.toList.contains ')' then none else some ⟨text, none⟩
  | some (before, rest) =>
      match rest.toList.reverse with
      | ')' :: list =>
          let name := Text.trim before
          if name.isEmpty then none
          else some ⟨name, some (parametersOf (String.ofList list.reverse))⟩
      | _ => none

def parse (text : String) : Except SettingsError MethodPattern :=
  match ofTrimmed? (Text.trim text) with
  | some pattern => .ok pattern
  | none => .error (.signature (Text.trim text))

def covers (pattern : MethodPattern) (symbol : Symbol) : Bool :=
  symbol.name == pattern.name && pattern.parameters.all fun parameters =>
    parameters == symbol.parameters

end MethodPattern

structure TypeRule where
  typeName : String
  methods : List MethodPattern
deriving DecidableEq, Repr

namespace TypeRule

def ofSetting (rule : MethodRule) : Except SettingsError TypeRule :=
  (rule.methods.mapM MethodPattern.parse).map fun methods => ⟨rule.typeName, methods⟩

def covers (rule : TypeRule) (symbol : Symbol) : Bool :=
  (symbol.containingType.any fun owner => owner.implements rule.typeName) &&
    rule.methods.any fun pattern => pattern.covers symbol

end TypeRule

end ReleaseAudit.Rules
