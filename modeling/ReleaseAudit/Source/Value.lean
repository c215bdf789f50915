import ReleaseAudit.Source.Node

/-!
# Values and their wrappers

Parentheses, casts, `as`, `!`, `??` and the branches of `?:` hand a value on
unchanged. `valueRoot` climbs out of such wrappers, `unwrapValue` goes down
into those that have one inner value.
-/

namespace ReleaseAudit.Source.Node

set_option autoImplicit false

def binaryOperator? (node : Node) : Option String :=
  ((node.child? .operator).or (node.children.find? fun child => !child.named)).map
    fun operator => operator.kind.spelling

def assertsPresence (node : Node) : Bool :=
  Text.endsWith "!" (Text.trimEnd node.text)

/-- The child's value is the parent's value. -/
def passesValue (parent child : Node) : Bool :=
  match parent.kind with
  | .parenthesizedExpression => true
  | .castExpression => (parent.childOrLast? .value).any child.same
  | .asExpression => (parent.childOrFirst? .left).any child.same
  | .postfixUnaryExpression => parent.assertsPresence
  | .conditionalExpression => !(parent.childOrFirst? .condition).any child.same
  | .binaryExpression =>
      parent.binaryOperator? == some "??" || parent.binaryOperator? == some "as"
  | _ => false

def climbValue (current : Node) : (enclosing : List Node) → Node
  | [] => current
  | parent :: enclosing =>
      if passesValue parent current then climbValue parent enclosing else current

/-- The outermost expression with the value of this one. -/
def valueRoot (node : Node) : Node :=
  climbValue node node.ancestors

def wrapped? (node : Node) : Option Node :=
  match node.kind with
  | .parenthesizedExpression => node.firstPart?
  | .castExpression => node.childOrLast? .value
  | .asExpression => node.childOrFirst? .left
  | .postfixUnaryExpression => if node.assertsPresence then node.firstPart? else none
  | _ => none

theorem mem_children_of_wrapped {inner node : Node} (found : node.wrapped? = some inner) :
    inner ∈ node.children := by
  unfold wrapped? at found
  split at found
  · exact mem_children_of_first_part found
  · exact mem_children_of_child_or_last found
  · exact mem_children_of_child_or_first found
  · split at found
    · exact mem_children_of_first_part found
    · cases found
  · cases found

def unwrapValue (node : Node) : Node :=
  match found : node.wrapped? with
  | none => node
  | some inner =>
      have := size_lt_of_mem_children (mem_children_of_wrapped found)
      unwrapValue inner
termination_by node.tree.size

/-- The `await` expression around this node, looking through parentheses. -/
def awaitAmong? : (enclosing : List Node) → Option Node
  | [] => none
  | parent :: enclosing =>
      match parent.kind with
      | .parenthesizedExpression => awaitAmong? enclosing
      | .awaitExpression => some parent
      | _ => none

def awaitedBy? (node : Node) : Option Node :=
  awaitAmong? node.ancestors

def operand? (node : Node) : Option Node :=
  node.firstPart?

end ReleaseAudit.Source.Node
