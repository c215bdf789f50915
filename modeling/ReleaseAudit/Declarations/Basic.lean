import ReleaseAudit.Declarations.Scope
import ReleaseAudit.Types.Symbol

/-!
# Declared types and members
-/

namespace ReleaseAudit.Declarations

set_option autoImplicit false

open ReleaseAudit.Types (MemberKind TypeKind TypeRef)

structure ParameterDecl where
  type : Option TypeRef
  optional : Bool
  isParams : Bool

structure MemberDecl where
  kind : MemberKind
  name : String
  type : Option TypeRef
  typeParams : List String
  /-- Absent when any number of arguments fits. -/
  parameters : Option (List ParameterDecl)
  isStatic : Bool
  isExtension : Bool
  /-- The result is the explicit generic argument at this index. -/
  returnsTypeArgument : Option Nat

namespace MemberDecl

def accepts (member : MemberDecl) (count : Nat) : Bool :=
  match member.parameters with
  | none => true
  | some parameters =>
      let required := parameters.countP fun parameter => !parameter.optional && !parameter.isParams
      let openEnded := parameters.getLast?.any ParameterDecl.isParams
      required ≤ count && (count ≤ parameters.length || openEnded)

def isValue (member : MemberDecl) : Bool :=
  member.kind == .field || member.kind == .property

def isMethod (member : MemberDecl) : Bool :=
  member.kind == .method

end MemberDecl

structure TypeDecl where
  fullName : String
  key : String
  kind : TypeKind
  typeParams : List String
  bases : List TypeRef
  /-- Scope in which the types of bases and members are looked up. -/
  scope : NameScope
  members : List MemberDecl
  baseKeys : List String := []
  /-- Qualified names of all bases and interfaces, ascending. -/
  supertypes : List String := []

end ReleaseAudit.Declarations
