import ReleaseAudit.Inference.Scope
import ReleaseAudit.Source.Walk

/-!
# What a simple name refers to

Names of locals, parameters and iteration variables are sought outward up to
the enclosing type; then fields and properties of the enclosing types and their
bases are.
-/

namespace ReleaseAudit.Inference

set_option autoImplicit false

open Declarations (Index MemberDecl TypeDecl)
open Source (Node)

inductive Binding where
  | localVariable (declarator : Node)
  | parameter (declaration : Node)
  | untyped
  | iteration (statement : Node)
  | member (decl : TypeDecl) (member : MemberDecl)

def namedParameter? (list : Node) (name : String) : Option Node :=
  (list.partsOf .parameter).find? fun parameter =>
    parameter.declarationName?.any fun spelled => spelled.text == name

def findParameter? (scope : Node) (name : String) : Option Binding :=
  match Declarations.parameterList? scope with
  | none => none
  | some list =>
      match list.kind with
      | .parameterList =>
          (namedParameter? list name).map fun parameter =>
            if parameter.declaredType?.isSome then .parameter parameter else .untyped
      | .identifier | .implicitParameter => if list.text == name then some .untyped else none
      | _ => none

def declaresBefore (scope site : Node) (name : String) (declarator : Node) : Bool :=
  declarator.start < site.start &&
    (declarator.declarationName?.any fun spelled => spelled.text == name) &&
    declarator.enclosingScope?.any scope.same &&
    !(declarator.parent?.bind Node.parent?).any fun holder => holder.kind.isFieldDeclaration

def findLocal? (scope site : Node) (name : String) : Option Node :=
  ((scope.descendantsOf .variableDeclarator).filter (declaresBefore scope site name)).getLast?

def iterates (statement site : Node) (name : String) : Bool :=
  statement.kind == .foreachStatement &&
    ((statement.child? .left).any fun left => left.kind == .identifier && left.text == name) &&
    (statement.child? .body).any fun body => body.start ≤ site.start

/-- What one enclosing node declares under `name`. -/
def bindingIn? (site : Node) (name : String) (ancestor : Node) : Option Binding :=
  if iterates ancestor site name then some (.iteration ancestor)
  else if ancestor.kind.isScope || ancestor.kind == .compilationUnit then
    (findParameter? ancestor name).or ((findLocal? ancestor site name).map .localVariable)
  else none

/-- The innermost binding among enclosing nodes, up to the first type declaration. -/
def localAmong? (site : Node) (name : String) : (enclosing : List Node) → Option Binding
  | [] => none
  | ancestor :: enclosing =>
      match bindingIn? site name ancestor with
      | some binding => some binding
      | none =>
          if ancestor.kind.isTypeDeclaration then none else localAmong? site name enclosing

def enclosingMember? (index : Index) (site : Node) (name : String) : Option Binding :=
  (scopeAt site).enclosingTypes.reverse.findSome? fun key =>
    (index.findMember? key name MemberDecl.isValue none).map fun found =>
      .member found.1 found.2

def lookup? (index : Index) (site : Node) (name : String) : Option Binding :=
  (localAmong? site name site.ancestors).or (enclosingMember? index site name)

end ReleaseAudit.Inference
