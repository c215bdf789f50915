import ReleaseAudit.Source.Node
import ReleaseAudit.Types.Reference

/-!
# Where a name is looked up from

A name scope holds the namespace, the enclosing types, the generic parameters
and the imports that are in force at some place of a file.
-/

namespace ReleaseAudit.Declarations

set_option autoImplicit false

/-- Puts a name into a namespace; the empty namespace adds nothing. -/
def qualify (namespaceName name : String) : String :=
  if namespaceName.isEmpty then name else namespaceName ++ "." ++ name

structure Usings where
  namespaces : List String := []
  /-- Short names for longer ones, the latest first. -/
  aliases : List (String × String) := []
  staticTypes : List String := []
deriving DecidableEq, Repr

namespace Usings

def addDirective (usings : Usings) (text : String) : Usings :=
  let plain := Text.trim (Text.dropEndMarks ';' (Text.trim text))
  let own :=
    match Text.dropHead? "global " plain with
    | some rest => Text.trimStart rest
    | none => plain
  match (Text.dropHead? "using" own).map Text.trim with
  | none => usings
  | some target =>
      match Text.dropHead? "static " target with
      | some type => { usings with staticTypes := usings.staticTypes ++ [Text.trim type] }
      | none =>
          match Text.splitFirst? '=' target with
          | some (short, long) =>
              { usings with aliases := (Text.trim short, Text.trim long) :: usings.aliases }
          | none =>
              if target.isEmpty then usings
              else { usings with namespaces := usings.namespaces ++ [target] }

def addFrom (usings : Usings) (container : Source.Node) : Usings :=
  (container.partsOf .usingDirective).foldl (fun usings child => usings.addDirective child.text)
    usings

def alias? (usings : Usings) (name : String) : Option String :=
  usings.aliases.lookup name

end Usings

structure NameScope where
  namespaceName : String := ""
  enclosingTypes : List String := []
  typeParams : List String := []
  usings : Usings := {}
deriving DecidableEq, Repr

def tailsOf : List String → List (List String)
  | [] => [[]]
  | head :: rest => (head :: rest) :: tailsOf rest

/-- A namespace and the namespaces around it, innermost first, ending in the empty one. -/
def namespaceChain (namespaceName : String) : List String :=
  (tailsOf (Text.split '.' namespaceName).reverse).map fun segments =>
    String.intercalate "." segments.reverse

end ReleaseAudit.Declarations
