import ReleaseAudit.Inference.Binding

/-!
# Types of expressions

One step of inference types an expression, given a way to type the expressions
it depends on. Typing runs a bounded number of such steps, so chains of
implicitly typed variables end; where the bound is met the type is unknown.
-/

namespace ReleaseAudit.Inference

set_option autoImplicit false

open Declarations (Index MemberDecl NameScope Substitution TypeDecl)
open Source (Node)
open ReleaseAudit.Types (Symbol TypeRef TypeSymbol)

/-- Nested expressions that inference looks through. -/
def maxDepth : Nat := 33

def awaitables : List String :=
  ["System.Threading.Tasks.Task", "System.Threading.Tasks.ValueTask",
    "System.Runtime.CompilerServices.ConfiguredTaskAwaitable",
    "System.Runtime.CompilerServices.ConfiguredValueTaskAwaitable"]

def onlyArgument? (type : TypeSymbol) : Option TypeSymbol :=
  match type.typeArguments with
  | [argument] => some argument
  | _ => none

def awaited? (type : TypeSymbol) : Option TypeSymbol :=
  if awaitables.contains type.fullName then onlyArgument? type else none

section Written

variable (index : Index)

def writtenAt? (node : Node) : Option TypeSymbol :=
  match TypeRef.parse? node.text with
  | none => none
  | some written =>
      if written.isImplicit then none else index.resolve? (scopeAt node) [] written

def namedType? (node : Node) : Option TypeSymbol :=
  match node.kind with
  | .identifier | .qualifiedName | .genericName | .aliasQualifiedName | .predefinedType
  | .memberAccessExpression => writtenAt? index node
  | _ => none

def enclosingTypeSymbol? (node : Node) : Option TypeSymbol :=
  (scopeAt node).enclosingTypes.getLast?.bind fun key => index.symbolFor? key []

def declaredAt? (node : Node) : Option TypeSymbol :=
  node.declaredType?.bind (writtenAt? index)

end Written

structure BoundCall where
  symbol : Symbol
  returnType : Option TypeSymbol

/-- Bindings of a declaration's generic parameters by a receiver of exactly that type. -/
def receiverBindings (decl : TypeDecl) (receiver : Option TypeSymbol) : Substitution :=
  match receiver with
  | some receiver =>
      if receiver.key == decl.key then
        Substitution.bindAll [] decl.typeParams receiver.typeArguments
      else []
  | none => []

section Calls

variable (index : Index)

def parameterName (scope : NameScope) (bindings : Substitution) (type : Option TypeRef) :
    String :=
  match type.bind (index.resolve? scope bindings) with
  | some symbol => symbol.fullName
  | none => "?"

def bindCall (decl : TypeDecl) (member : MemberDecl) (receiver : Option TypeSymbol)
    (typeArguments : List TypeSymbol) (isExtension : Bool) : BoundCall :=
  let bindings := (receiverBindings decl receiver).bindAll member.typeParams typeArguments
  let scope := { decl.scope with typeParams := decl.scope.typeParams ++ member.typeParams }
  { symbol :=
      { kind := if member.kind = .constructor then .constructor else .method
        name := member.name
        containingType := index.symbolFor? decl.key []
        parameters := (member.parameters.getD []).map fun parameter =>
          parameterName index scope bindings parameter.type
        isStatic := member.isStatic
        isExtension := isExtension }
    returnType :=
      match member.returnsTypeArgument with
      | some position => typeArguments[position]?
      | none => member.type.bind (index.resolve? scope bindings) }

def explicitTypeArguments (name : Node) (scope : NameScope) : List TypeSymbol :=
  if name.kind == .genericName then
    match TypeRef.parse? name.text with
    | some written =>
        written.args.map fun arg =>
          (index.resolve? scope [] arg).getD (TypeSymbol.ofName arg.spelling)
    | none => []
  else []

/-- The outermost scope below the enclosing type: local functions are visible throughout. -/
def outermostScope? (node : Node) : Option Node :=
  ((node.ancestors.takeWhile fun ancestor => !ancestor.kind.isTypeDeclaration).filter
    fun ancestor => ancestor.kind.isScope || ancestor.kind == .compilationUnit).getLast?

def localFunction? (invocation : Node) (name : String) : Option Node :=
  (outermostScope? invocation).bind fun scope =>
    (scope.descendantsOf .localFunctionStatement).find? fun function =>
      function.declarationName?.any fun spelled => spelled.text == name

def localFunctionCall? (invocation : Node) (name : String) (typeArguments : List TypeSymbol) :
    Option BoundCall :=
  (localFunction? invocation name).map fun function =>
    let own := Declarations.typeParameters function
    let around := scopeAt function
    let scope := { around with typeParams := around.typeParams ++ own }
    let bindings := Substitution.bindAll [] own typeArguments
    { symbol :=
        { Symbol.ofName .method name with
          parameters := (Declarations.parameters function).map fun parameter =>
            parameterName index scope bindings parameter.type }
      returnType :=
        (Declarations.writtenType? function.declaredType?).bind
          (index.resolve? scope bindings) }

def enclosingMethod? (scope : NameScope) (name : String) (count : Nat) :
    Option (TypeDecl × MemberDecl) :=
  scope.enclosingTypes.reverse.findSome? fun key =>
    index.findMember? key name MemberDecl.isMethod (some count)

def importedMethod? (scope : NameScope) (name : String) (count : Nat) :
    Option (TypeDecl × MemberDecl) :=
  scope.usings.staticTypes.findSome? fun text => do
    let written ← TypeRef.parse? text
    let key ← index.lookupKey? written.name written.arity scope
    index.findMember? key name (fun member => member.isMethod && member.isStatic) (some count)

def callOn? (infer : Node → Option TypeSymbol) (receiver : Node) (name : String) (count : Nat)
    (typeArguments : List TypeSymbol) : Option BoundCall :=
  match infer receiver with
  | some type =>
      match index.findMember? type.key name MemberDecl.isMethod (some count) with
      | some (decl, member) => some (bindCall index decl member (some type) typeArguments false)
      | none =>
          (index.findExtension? name type count).map fun found =>
            bindCall index found.1 found.2 none typeArguments true
  | none => do
      let owner ← namedType? index receiver
      let (decl, member) ← index.findMember? owner.key name MemberDecl.isMethod (some count)
      some (bindCall index decl member (some owner) typeArguments false)

def resolveCall? (infer : Node → Option TypeSymbol) (invocation : Node) : Option BoundCall := do
  let target ← invocation.callTarget?
  let name := target.name.simpleName
  let count := invocation.arguments.length
  let scope := scopeAt invocation
  let typeArguments := explicitTypeArguments index target.name scope
  match target.receiver with
  | some receiver => callOn? index infer receiver name count typeArguments
  | none =>
      (localFunctionCall? index invocation name typeArguments).or
        (((enclosingMethod? index scope name count).or (importedMethod? index scope name count)).map
          fun found => bindCall index found.1 found.2 none typeArguments false)

end Calls

section Step

variable (index : Index) (infer : Node → Option TypeSymbol)

/-- Type of a local, from its declaration or from its initial value. A use inside the initial
value itself has none. -/
def localType? (declarator site : Node) : Option TypeSymbol := do
  let declaration ← declarator.parent?
  let typeNode ← declaration.declaredType?
  let written ← TypeRef.parse? typeNode.text
  if written.isImplicit then
    let initial ← declarator.declaratorValue?
    if initial.start ≤ site.start && site.start < initial.stop then none else infer initial
  else writtenAt? index typeNode

def iterationType? (statement : Node) : Option TypeSymbol :=
  ((statement.child? .type).bind (writtenAt? index)).or
    (((statement.child? .right).bind infer).bind onlyArgument?)

def bindingType? (binding : Binding) (site : Node) : Option TypeSymbol :=
  match binding with
  | .localVariable declarator => localType? index infer declarator site
  | .parameter declaration => declaredAt? index declaration
  | .untyped => none
  | .iteration statement => iterationType? index infer statement
  | .member decl member => member.type.bind (index.resolve? decl.scope [])

/-- Type that an implicit `new()` takes from its surroundings. -/
def targetType? (node : Node) : Option TypeSymbol :=
  let root := node.valueRoot
  match root.declaratorOf? with
  | some declarator => declaredAt? index declarator.declaration
  | none => do
      let parent ← root.parent?
      match parent.kind with
      | .assignmentExpression =>
          let _ ← (parent.child? .right).filter root.same
          (parent.child? .left).bind infer
      | .returnStatement =>
          let scope ← parent.enclosingScope?
          if scope.kind.isAnonymousFunction then none else declaredAt? index scope
      | .arrowExpressionClause | .equalsValueClause => parent.parent?.bind (declaredAt? index)
      | .propertyDeclaration => declaredAt? index parent
      | _ => none

def receiverType? (receiver : Node) : Option TypeSymbol :=
  (infer receiver).or (namedType? index receiver)

def accessedMember? (access : Node) : Option (TypeSymbol × TypeDecl × MemberDecl) := do
  let owner ← (access.child? .expression).bind (receiverType? index infer)
  let name ← access.child? .name
  let (decl, member) ← index.findMember? owner.key name.simpleName MemberDecl.isValue none
  some (owner, decl, member)

def memberAccessType? (access : Node) : Option TypeSymbol := do
  let (owner, decl, member) ← accessedMember? index infer access
  let type ← member.type
  index.resolve? decl.scope (receiverBindings decl (some owner)) type

def typeStep? (node : Node) : Option TypeSymbol :=
  match node.kind with
  | .objectCreationExpression | .castExpression =>
      (node.childOrFirst? .type).bind (writtenAt? index)
  | .implicitObjectCreationExpression => targetType? index infer node
  | .invocationExpression => (resolveCall? index infer node).bind BoundCall.returnType
  | .awaitExpression => (node.operand?.bind infer).bind awaited?
  | .parenthesizedExpression => node.operand?.bind infer
  | .asExpression => (node.childOrLast? .right).bind (writtenAt? index)
  | .binaryExpression =>
      if node.binaryOperator? == some "??" then (node.childOrFirst? .left).bind infer
      else if node.binaryOperator? == some "as" then
        (node.childOrLast? .right).bind (writtenAt? index)
      else none
  | .conditionalExpression =>
      ((node.child? .consequence).bind infer).or ((node.child? .alternative).bind infer)
  | .postfixUnaryExpression => if node.assertsPresence then node.operand?.bind infer else none
  | .identifier => (lookup? index node node.text).bind fun binding =>
      bindingType? index infer binding node
  | .memberAccessExpression => memberAccessType? index infer node
  | kind => if kind.isThis then enclosingTypeSymbol? index node else none

end Step

/-- Type of an expression, looking through at most `depth` nested ones. -/
def typeAt? (index : Index) : (depth : Nat) → Node → Option TypeSymbol
  | 0, _ => none
  | depth + 1, node => typeStep? index (typeAt? index depth) node

end ReleaseAudit.Inference
