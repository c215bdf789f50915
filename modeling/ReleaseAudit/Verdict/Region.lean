import ReleaseAudit.Verdict.Ownership

/-!
# What happens inside a scope
-/

namespace ReleaseAudit.Source.Node

set_option autoImplicit false

theorem size_unwrap_value_le (node : Node) : node.unwrapValue.tree.size ≤ node.tree.size := by
  fun_induction unwrapValue node with
  | case1 node => exact Nat.le_refl _
  | case2 node inner found shorter ih => omega

theorem size_lt_of_mem_arguments {argument node : Node} (member : argument ∈ node.arguments) :
    argument.tree.size < node.tree.size := by
  unfold arguments at member
  split at member
  · next list found =>
      have inList := size_lt_of_mem_children
        (mem_children_of_mem_parts (List.mem_filter.mp member).1)
      have inNode : list.tree.size < node.tree.size := by
        apply size_lt_of_mem_children
        rcases Option.or_eq_some_iff.mp found with found | ⟨_, found⟩
        · exact mem_children_of_child found
        · exact mem_children_of_mem_parts (mem_parts_of_part_of found)
      omega
  · cases member

theorem size_lt_of_argument_value {value argument : Node}
    (found : argument.argumentValue? = some value) : value.tree.size < argument.tree.size :=
  size_lt_of_mem_children (mem_children_of_last_part found)

/-- Returning the value hands back the local `name`: it is the local, or a call or construction
that receives it. -/
def handsBack (value : Node) (name : String) : Bool :=
  let inner := value.unwrapValue
  if inner.kind == .identifier then inner.text == name
  else if inner.kind.isCreation then
    inner.arguments.attach.any fun entry =>
      match found : entry.val.argumentValue? with
      | some argument =>
          have := size_lt_of_argument_value found
          have := size_lt_of_mem_arguments entry.property
          have := size_unwrap_value_le value
          handsBack argument name
      | none => false
  else false
termination_by value.tree.size
decreasing_by
  simp_all only [inner]
  omega

end ReleaseAudit.Source.Node

namespace ReleaseAudit.Verdict

set_option autoImplicit false

open Source (Node)

/-- A scope, seen as the region that is searched for what becomes of a resource. -/
structure Region where
  root : Node

namespace Region

def invocations (region : Region) : List Node :=
  region.root.descendantsOf .invocationExpression

def creations (region : Region) : List Node :=
  region.root.descendants.filter fun node => node.kind.isConstruction

def usingStatements (region : Region) : List Node :=
  region.root.descendants.filter fun node =>
    node.kind == .usingStatement || node.isUsingDeclaration

def returns (region : Region) : List Node :=
  region.root.descendantsOf .returnStatement

def isDeclaredName (identifier : Node) : Bool :=
  (identifier.parentOf? .variableDeclarator).any fun declarator =>
    declarator.declarationName?.any identifier.same

/-- Identifiers spelled `name` in `using` headers, other than those declared there. -/
def headerReferences (region : Region) (name : String) : List Node :=
  ((region.usingStatements.flatMap Node.usingHeader).flatMap Node.descendants).filter fun node =>
    node.kind == .identifier && node.text == name && !isDeclaredName node

/-- A `return` at or after `offset` hands back the local `name`. -/
def returnsAfter (region : Region) (name : String) (offset : Nat) : Bool :=
  region.returns.any fun statement =>
    offset ≤ statement.start && statement.operand?.any fun value => value.handsBack name

end Region

namespace Audit

variable (audit : Audit)

def regionAt? (node : Node) : Option Region :=
  (audit.model.enclosingScope node).map Region.mk

def releaseDesignatedMethods (node : Node) : List Node :=
  match node.enclosingType?.bind Node.body? with
  | none => []
  | some body =>
      (body.partsOf .methodDeclaration).filter fun method =>
        method.declarationName?.any fun name => audit.rules.isReleaseDesignated name.text

end Audit

end ReleaseAudit.Verdict
