import ReleaseAudit.Source.Value

/-!
# Calls, receivers and arguments
-/

namespace ReleaseAudit.Source

set_option autoImplicit false

structure CallTarget where
  receiver : Option Node
  name : Node

namespace Node

/-- Receiver and method name of an invocation: `a.M()`, `a?.M()` with the call inside or
outside of the conditional access, `M()` and `M<T>()`. -/
def callTarget? (invocation : Node) : Option CallTarget := do
  let function ← invocation.childOrFirst? .function
  match function.kind with
  | .memberAccessExpression =>
      let name ← function.childOrLast? .name
      some ⟨function.child? .expression, name⟩
  | .conditionalAccessExpression =>
      let binding ← function.partOf? .memberBindingExpression
      let name ← binding.childOrLast? .name
      some ⟨function.firstPart?, name⟩
  | .memberBindingExpression =>
      let name ← function.childOrLast? .name
      some ⟨(invocation.parentOf? .conditionalAccessExpression).bind firstPart?, name⟩
  | .identifier | .genericName => some ⟨none, function⟩
  | _ => none

def simpleName (name : Node) : String :=
  match name.kind with
  | .genericName => (name.firstPart?.map Node.text).getD name.text
  | _ => name.text

def invokedName? (invocation : Node) : Option String :=
  invocation.callTarget?.map fun target => target.name.simpleName

def arguments (node : Node) : List Node :=
  match (node.child? .arguments).or (node.partOf? .argumentList) with
  | some list => list.partsOf .argument
  | none => []

def argumentValue? (argument : Node) : Option Node :=
  argument.lastPart?

def argumentName? (argument : Node) : Option String :=
  match argument.child? .name with
  | some name => some name.text
  | none =>
      match argument.partOf? .nameColon with
      | some label => some (Text.trim (Text.dropEndMarks ':' label.text))
      | none =>
          match argument.parts with
          | label :: _ :: _ => if argument.hasToken ":" then some label.text else none
          | _ => none

/-- The invocation or construction that receives this value as an argument. -/
def argumentOwner? (value : Node) : Option Node := do
  let argument ← value.parentOf? .argument
  let _ ← argument.argumentValue?.filter value.same
  let list ← argument.parentOf? .argumentList
  list.parent?.filter fun owner => owner.kind.isCreation

def invocationOnReceiver? (value : Node) : Option Node := do
  let parent ← value.parent?
  match parent.kind with
  | .memberAccessExpression =>
      let _ ← (parent.child? .expression).filter value.same
      let invocation ← parent.parentOf? .invocationExpression
      let _ ← (invocation.childOrFirst? .function).filter parent.same
      some invocation
  | .conditionalAccessExpression =>
      let _ ← parent.firstPart?.filter value.same
      (parent.parentOf? .invocationExpression).or (parent.partOf? .invocationExpression)
  | _ => none

def isThis (node : Node) : Bool :=
  node.kind.isThis || node.text == "this"

/-- The expression is `name` or `this.name`, looking through wrappers. -/
def refersTo (expression : Node) (name : String) : Bool :=
  let inner := expression.unwrapValue
  match inner.kind with
  | .identifier => inner.text == name
  | .memberAccessExpression =>
      (inner.child? .expression).any isThis &&
        (inner.child? .name).any fun member => member.text == name
  | _ => false

end Node

end ReleaseAudit.Source
