import ReleaseAudit.Declarations.Index
import ReleaseAudit.Source.Call
import ReleaseAudit.Source.Declaration
import ReleaseAudit.Source.Document

/-!
# Declarations of a document

A type site is a type declaration with the namespace, the enclosing types and
the imports around it. The sites of a document are listed outer types first,
and entered into the table in that order.
-/

namespace ReleaseAudit.Declarations

set_option autoImplicit false

open Source (Document Node)
open ReleaseAudit.Types (TypeKind TypeRef typeKey)

def typeParameters (node : Node) : List String :=
  match (node.child? .typeParameters).or (node.partOf? .typeParameterList) with
  | none => []
  | some list =>
      (list.partsOf .typeParameter).map fun parameter =>
        ((parameter.declarationName?).getD parameter).text

def parameterList? (node : Node) : Option Node :=
  (node.child? .parameters).or (node.partOf? .parameterList)

def writtenType? (node : Option Node) : Option TypeRef :=
  (node.bind fun type => TypeRef.parse? type.text).filter fun written => written.name != "void"

def parameterDecl (parameter : Node) : ParameterDecl :=
  ⟨writtenType? parameter.declaredType?,
    parameter.children.any fun child =>
      child.kind.spelling == "=" || child.kind == .equalsValueClause,
    parameter.hasModifier "params"⟩

/-- Reads parameters from the children of a list. A `params` keyword directly in the list is
followed by the type and name of the last parameter; `pending` tells that its type is due. -/
def parameterDecls (pending : Bool) : List Node → List ParameterDecl
  | [] => []
  | child :: rest =>
      if child.kind == .parameter then parameterDecl child :: parameterDecls pending rest
      else if !child.named && child.kind.spelling == "params" then parameterDecls true rest
      else if pending && child.named && child.kind != .identifier then
        ⟨TypeRef.parse? child.text, false, true⟩ :: parameterDecls false rest
      else parameterDecls pending rest

def parameters (node : Node) : List ParameterDecl :=
  match parameterList? node with
  | none => []
  | some list => parameterDecls false list.children

def hasThisParameter (method : Node) : Bool :=
  match (parameterList? method).bind fun list => list.partOf? .parameter with
  | none => false
  | some first =>
      let typeStart := (first.declaredType?.map Node.start).getD first.stop
      first.children.any fun child => child.stop ≤ typeStart && child.text == "this"

def baseTypes (node : Node) : List TypeRef :=
  match node.partOf? .baseList with
  | none => []
  | some list =>
      list.parts.filterMap fun base =>
        TypeRef.parse? (((Text.splitFirst? '(' base.text).map Prod.fst).getD base.text)

def valueMember (kind : Types.MemberKind) (name : Node) (type : Option TypeRef)
    (isStatic : Bool) : MemberDecl :=
  ⟨kind, name.text, type, [], none, isStatic, false, none⟩

def fieldMembers (member : Node) : List MemberDecl :=
  match member.partOf? .variableDeclaration with
  | none => []
  | some declaration =>
      (declaration.partsOf .variableDeclarator).filterMap fun declarator =>
        declarator.declarationName?.map fun name =>
          valueMember .field name (writtenType? declaration.declaredType?)
            (member.hasModifier "static")

def memberDecls (member : Node) : List MemberDecl :=
  let isStatic := member.hasModifier "static"
  match member.kind with
  | .fieldDeclaration | .eventFieldDeclaration => fieldMembers member
  | .propertyDeclaration =>
      member.declarationName?.toList.map fun name =>
        valueMember .property name (writtenType? member.declaredType?) isStatic
  | .methodDeclaration =>
      member.declarationName?.toList.map fun name =>
        ⟨.method, name.text, writtenType? member.declaredType?, typeParameters member,
          some (parameters member), isStatic, isStatic && hasThisParameter member, none⟩
  | .constructorDeclaration =>
      member.declarationName?.toList.map fun name =>
        ⟨.constructor, name.text, none, [], some (parameters member), isStatic, false, none⟩
  | _ => []

structure TypeSite where
  node : Node
  fullName : String
  outer : List String
  namespaceName : String
  usings : Usings

namespace TypeSite

def ownParams (site : TypeSite) : List String :=
  typeParameters site.node

def key (site : TypeSite) : String :=
  typeKey site.fullName site.ownParams.length

def kind (site : TypeSite) : TypeKind :=
  match site.node.kind with
  | .interfaceDeclaration => .interfaceType
  | .structDeclaration | .recordStructDeclaration => .structType
  | _ => .classType

def members (site : TypeSite) : List MemberDecl :=
  match site.node.body? with
  | some body => body.parts.flatMap memberDecls
  | none => []

/-- The declaration at a site, with the generic parameters of its outer types in sight. -/
def toDecl (site : TypeSite) (index : Index) : TypeDecl where
  fullName := site.fullName
  key := site.key
  kind := site.kind
  typeParams := site.ownParams
  bases := baseTypes site.node
  scope :=
    { namespaceName := site.namespaceName
      enclosingTypes := site.outer ++ [site.key]
      typeParams :=
        (site.outer.filterMap index.get?).flatMap TypeDecl.typeParams ++ site.ownParams
      usings := site.usings }
  members := site.members

end TypeSite

structure Surroundings where
  namespaceName : String
  outerName : Option String
  outer : List String
  usings : Usings

namespace Surroundings

def site (around : Surroundings) (node name : Node) : TypeSite where
  node := node
  fullName :=
    match around.outerName with
    | some outerName => outerName ++ "." ++ name.text
    | none => qualify around.namespaceName name.text
  outer := around.outer
  namespaceName := around.namespaceName
  usings := around.usings

def enterNamespace (around : Surroundings) (name body : Node) : Surroundings :=
  { around with
    namespaceName := qualify around.namespaceName name.text
    usings := around.usings.addFrom body }

def enterType (around : Surroundings) (site : TypeSite) : Surroundings :=
  { around with outerName := some site.fullName, outer := around.outer ++ [site.key] }

end Surroundings

theorem size_lt_of_body {body node : Node} (found : node.body? = some body) :
    body.tree.size < node.tree.size := by
  apply Node.size_lt_of_mem_children
  rcases Option.or_eq_some_iff.mp found with found | ⟨_, found⟩
  · exact Node.mem_children_of_child found
  · exact Node.mem_children_of_mem_parts (Node.mem_parts_of_part_of found)

/-- Type sites in a container, outer types before the types in them. -/
def typeSites (around : Surroundings) (container : Node) : List TypeSite :=
  container.parts.attach.flatMap fun entry =>
    have inContainer :=
      Node.size_lt_of_mem_children (Node.mem_children_of_mem_parts entry.property)
    let child := entry.val
    if child.kind == .namespaceDeclaration then
      match child.declarationName?, found : child.body? with
      | some name, some body =>
          have := Nat.lt_trans (size_lt_of_body found) inContainer
          typeSites (around.enterNamespace name body) body
      | _, _ => []
    else if child.kind == .fileScopedNamespaceDeclaration then typeSites around child
    else if child.kind.isTypeDeclaration then
      match child.declarationName? with
      | none => []
      | some name =>
          let site := around.site child name
          match found : child.body? with
          | some body =>
              have := Nat.lt_trans (size_lt_of_body found) inContainer
              site :: typeSites (around.enterType site) body
          | none => [site]
    else []
termination_by container.tree.size

/-- Namespace and imports at the top of a document, those of file-scoped namespaces included;
the last such namespace counts. -/
def topSurroundings (root : Node) : Surroundings :=
  (root.partsOf .fileScopedNamespaceDeclaration).foldl
    (fun around child =>
      { around with
        namespaceName := (child.declarationName?.map Node.text).getD around.namespaceName
        usings := around.usings.addFrom child })
    ⟨"", none, [], Usings.addFrom {} root⟩

def documentSites (document : Document) : List TypeSite :=
  typeSites (topSurroundings document.root) document.root

namespace Index

def addDocument (index : Index) (document : Document) : Index :=
  (documentSites document).foldl (fun index site => index.insert (site.toDecl index)) index

end Index

end ReleaseAudit.Declarations
