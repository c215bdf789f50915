import ReleaseAudit.Declarations.Collect

/-!
# The name scope at a node

Walking outward from a node gathers the namespaces, types, generic parameters
and imports around it, innermost first.
-/

namespace ReleaseAudit.Inference

set_option autoImplicit false

open Declarations (NameScope Usings qualify typeParameters)
open Source (Node)
open ReleaseAudit.Types (typeKey)

/-- What has been met on the way outward, innermost first. -/
structure Trail where
  usings : Usings := {}
  namespaces : List String := []
  types : List (String × Nat) := []
  typeParams : List String := []

namespace Trail

def addNamespaceName (trail : Trail) (declaration : Node) : Trail :=
  { trail with
    namespaces := trail.namespaces ++ (declaration.declarationName?.map Node.text).toList }

def addUsings (trail : Trail) (container : Node) : Trail :=
  { trail with usings := trail.usings.addFrom container }

def addType (trail : Trail) (declaration : Node) : Trail :=
  match declaration.declarationName? with
  | none => trail
  | some name =>
      let params := typeParameters declaration
      { trail with
        types := trail.types ++ [(name.text, params.length)]
        typeParams := trail.typeParams ++ params }

def pass (trail : Trail) (ancestor : Node) : Trail :=
  match ancestor.kind with
  | .namespaceDeclaration =>
      let named := trail.addNamespaceName ancestor
      match ancestor.body? with
      | some body => named.addUsings body
      | none => named
  | .compilationUnit =>
      (ancestor.partsOf .fileScopedNamespaceDeclaration).foldl
        (fun trail child => (trail.addNamespaceName child).addUsings child)
        (trail.addUsings ancestor)
  | .methodDeclaration | .localFunctionStatement =>
      { trail with typeParams := trail.typeParams ++ typeParameters ancestor }
  | kind => if kind.isTypeDeclaration then trail.addType ancestor else trail

def nestedKeys (outerName : String) : List (String × Nat) → List String
  | [] => []
  | (name, arity) :: rest =>
      let fullName := qualify outerName name
      typeKey fullName arity :: nestedKeys fullName rest

def toScope (trail : Trail) : NameScope :=
  let namespaceName := String.intercalate "." trail.namespaces.reverse
  { namespaceName := namespaceName
    enclosingTypes := nestedKeys namespaceName trail.types.reverse
    typeParams := trail.typeParams
    usings := trail.usings }

end Trail

def scopeAt (node : Node) : NameScope :=
  (node.ancestors.foldl Trail.pass {}).toScope

end ReleaseAudit.Inference
