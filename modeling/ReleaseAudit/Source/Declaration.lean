import ReleaseAudit.Source.Value

/-!
# Scopes and declarations

A `using (...)` statement and a `using` declaration release the resources of
their header when control leaves them.
-/

namespace ReleaseAudit.Source

set_option autoImplicit false

namespace Node

/-- The innermost scope among enclosing nodes; the compilation unit counts once a
top-level statement has been passed on the way to it. -/
def scopeAmong? (inGlobalStatement : Bool) : (enclosing : List Node) → Option Node
  | [] => none
  | ancestor :: enclosing =>
      if ancestor.kind.isScope then some ancestor
      else if ancestor.kind == .compilationUnit && inGlobalStatement then some ancestor
      else scopeAmong? (inGlobalStatement || ancestor.kind == .globalStatement) enclosing

def enclosingScope? (node : Node) : Option Node :=
  scopeAmong? false node.ancestors

def enclosingType? (node : Node) : Option Node :=
  node.ancestors.find? fun ancestor => ancestor.kind.isTypeDeclaration

def declarationName? (node : Node) : Option Node :=
  (node.child? .name).or (node.partOf? .identifier)

def body? (node : Node) : Option Node :=
  (node.child? .body).or (node.partOf? .declarationList)

def hasModifier (node : Node) (keyword : String) : Bool :=
  (node.parts.any fun child => child.kind == .modifier && child.text == keyword) ||
    node.children.any fun child => !child.named && child.kind.spelling == keyword

def declaredType? (node : Node) : Option Node :=
  ((node.child? .type).or (node.child? .returns)).or
    (if node.kind == .variableDeclaration then node.firstPart? else none)

def declaratorValue? (declarator : Node) : Option Node :=
  match declarator.children.dropWhile fun child => child.kind.spelling != "=" with
  | _ :: afterSign => afterSign.find? fun child => child.named && child.kind != .comment
  | [] =>
      (declarator.children.find? fun child => child.kind == .equalsValueClause).bind operand?

end Node

structure Declarator where
  declarator : Node
  name : Node
  declaration : Node
  holder : Node

namespace Declarator

def isField (declarator : Declarator) : Bool :=
  declarator.holder.kind.isFieldDeclaration

end Declarator

namespace Node

/-- The parent, or the grandparent across the clause of an initial value. -/
def initialised? (value : Node) : Option Node := do
  let parent ← value.parent?
  if parent.kind == .equalsValueClause then parent.parent? else some parent

def declaratorOf? (value : Node) : Option Declarator := do
  let declarator ← value.initialised?.filter fun node => node.kind == .variableDeclarator
  let _ ← declarator.declaratorValue?.filter value.same
  let declaration ← declarator.parentOf? .variableDeclaration
  let name ← declarator.declarationName?
  let holder ← declaration.parent?
  some ⟨declarator, name, declaration, holder⟩

def isGetter (accessor : Node) : Bool :=
  match accessor.child? .name with
  | some name => name.text == "get"
  | none => accessor.hasToken "get"

def accessorProperty? (accessor : Node) : Option Node := do
  let list ← accessor.parentOf? .accessorList
  list.parentOf? .propertyDeclaration

def arrowBodyOwner? (value : Node) : Option Node := do
  let clause ← value.parentOf? .arrowExpressionClause
  clause.parent?

end Node

end ReleaseAudit.Source

namespace ReleaseAudit.Source.Node

def isUsingDeclaration (statement : Node) : Bool :=
  statement.kind == .localDeclarationStatement && statement.hasToken "using"

def usingBody? (statement : Node) : Option Node :=
  statement.childOrLast? .body

def usingHeader (statement : Node) : List Node :=
  match statement.kind with
  | .usingStatement =>
      statement.parts.filter fun child => !statement.usingBody?.any child.same
  | .localDeclarationStatement =>
      if statement.isUsingDeclaration then statement.partsOf .variableDeclaration else []
  | _ => []

/-- Looks outward for the `using` whose header holds `child`, a node or one of its
enclosing nodes; statements, blocks and scopes end the search. -/
def headerAmong? (child : Node) : (enclosing : List Node) → Option Node
  | [] => none
  | parent :: enclosing =>
      if parent.kind == .usingStatement then
        if parent.usingBody?.any child.same then none else some parent
      else if parent.kind == .localDeclarationStatement then
        if parent.isUsingDeclaration then some parent else none
      else if parent.kind == .block || parent.kind == .compilationUnit ||
          parent.kind == .declarationList || parent.kind.isScope || parent.kind.isStatement then
        none
      else headerAmong? parent enclosing

def enclosingUsingHeader? (node : Node) : Option Node :=
  headerAmong? node node.ancestors

end ReleaseAudit.Source.Node
