import ReleaseAudit.Verdict.Region

/-!
# Where a created value ends up

Every creation has exactly one placement. The questions are asked in a fixed
order and the first that applies decides.
-/

namespace ReleaseAudit.Source.Node

set_option autoImplicit false

theorem depth_of_parent {parent node : Node} (found : node.parent? = some parent) :
    parent.depth + 1 = node.depth := by
  obtain ⟨tree, above, linked⟩ := node
  cases above with
  | nil => cases found
  | cons frame above =>
      cases found
      rfl

theorem parent_of_parent_of {parent node : Node} {kind : Kind}
    (found : node.parentOf? kind = some parent) : node.parent? = some parent :=
  (Option.filter_eq_some_iff.mp found).1

theorem depth_lt_of_mem_ancestors_from {tree : Tree} {above : List Frame}
    {linked : Linked tree above} {ancestor : Node}
    (member : ancestor ∈ ancestorsFrom tree above linked) : ancestor.depth < above.length := by
  induction above generalizing tree with
  | nil => cases member
  | cons frame above ih =>
      rcases List.mem_cons.mp member with rfl | further
      · simp [depth]
      · have := ih further
        simp only [List.length_cons]
        omega

theorem climb_value_eq_or_mem (current : Node) (enclosing : List Node) :
    climbValue current enclosing = current ∨ climbValue current enclosing ∈ enclosing := by
  induction enclosing generalizing current with
  | nil => exact Or.inl rfl
  | cons parent enclosing ih =>
      simp only [climbValue]
      split
      · rcases ih parent with same | further
        · exact Or.inr (by rw [same]; exact List.mem_cons_self)
        · exact Or.inr (List.mem_cons_of_mem _ further)
      · exact Or.inl rfl

theorem depth_value_root_le (node : Node) : node.valueRoot.depth ≤ node.depth := by
  rcases climb_value_eq_or_mem node node.ancestors with same | further
  · exact Nat.le_of_eq (by rw [valueRoot, same])
  · exact Nat.le_of_lt (depth_lt_of_mem_ancestors_from further)

theorem depth_lt_of_argument_owner {owner value : Node}
    (found : value.argumentOwner? = some owner) : owner.depth < value.depth := by
  simp only [argumentOwner?, Option.bind_eq_bind, Option.bind_eq_some_iff] at found
  obtain ⟨argument, isArgument, _, _, list, isList, isOwner⟩ := found
  have first := depth_of_parent (parent_of_parent_of isArgument)
  have second := depth_of_parent (parent_of_parent_of isList)
  have third := depth_of_parent (Option.filter_eq_some_iff.mp isOwner).1
  omega

end ReleaseAudit.Source.Node

namespace ReleaseAudit.Verdict

set_option autoImplicit false

open Source (Node)

inductive Placement where
  /-- Result of an awaited call; what counts is where the `await` ends up. -/
  | awaitedResult (await : Node)
  | releasedImmediately
  | propertyReturn (property : Node)
  | propertyExpressionBody (property : Node)
  | returnInBlock
  | returnArrowBody
  | returnInLambda
  /-- Stored in a local that a later `return` hands back. -/
  | returnLater
  | argumentOfInvocation (invocation : Node)
  | methodChainLink (invocation : Node)
  | argumentOfConstruction (creation : Node)
  /-- Element of an array, with the construction that receives the array. -/
  | arrayInitializerElement (owner : Option Node)
  | collectionInitializerElement (creation : Node)
  | usingHeader
  | localDeclaration (name : Node)
  | fieldDeclaration (name : Node)
  | localAssignment (name : Node)
  | fieldAssignment (name : Node)
  | propertyAssignment (name : Node)
  /-- Stored into a member of some other object. -/
  | memberAssignment
  | autoProperty (property : Node)
  | anonymous

namespace Placement

def name : Placement → String
  | awaitedResult _ => "awaited result"
  | releasedImmediately => "released immediately"
  | propertyReturn _ => "property return"
  | propertyExpressionBody _ => "property expression body"
  | returnInBlock => "return in block"
  | returnArrowBody => "return arrow body"
  | returnInLambda => "return in lambda"
  | returnLater => "returned later"
  | argumentOfInvocation _ => "argument of invocation"
  | methodChainLink _ => "method chain link"
  | argumentOfConstruction _ => "argument of construction"
  | arrayInitializerElement _ => "array initializer element"
  | collectionInitializerElement _ => "collection initializer element"
  | usingHeader => "using header"
  | localDeclaration _ => "local declaration"
  | fieldDeclaration _ => "field declaration"
  | localAssignment _ => "local assignment"
  | fieldAssignment _ => "field assignment"
  | propertyAssignment _ => "property assignment"
  | memberAssignment => "member assignment"
  | autoProperty _ => "auto property"
  | anonymous => "anonymous"

def payload? : Placement → Option Node
  | awaitedResult node | propertyReturn node | propertyExpressionBody node
  | argumentOfInvocation node | methodChainLink node | argumentOfConstruction node
  | collectionInitializerElement node | localDeclaration node | fieldDeclaration node
  | localAssignment node | fieldAssignment node | propertyAssignment node
  | autoProperty node => some node
  | arrayInitializerElement owner => owner
  | _ => none

def isGetterReturn : Placement → Bool
  | propertyReturn _ | propertyExpressionBody _ => true
  | _ => false

end Placement

def returnedBy (statement : Node) : Placement :=
  match statement.enclosingScope? with
  | none => .returnInBlock
  | some scope =>
      if scope.kind == .propertyDeclaration then
        let accessor := statement.ancestors.find? fun ancestor =>
          ancestor.kind == .accessorDeclaration
        if accessor.any Node.isGetter then .propertyReturn scope else .returnInBlock
      else if scope.kind.isAnonymousFunction then .returnInLambda
      else .returnInBlock

def arrowBodyOf? (owner : Node) : Option Placement :=
  match owner.kind with
  | .propertyDeclaration => some (.propertyExpressionBody owner)
  | .accessorDeclaration =>
      owner.accessorProperty?.bind fun property =>
        if owner.isGetter then some (.propertyExpressionBody property) else none
  | .lambdaExpression | .anonymousMethodExpression => some .returnInLambda
  | _ => some .returnArrowBody

def returned? (root : Node) : Option Placement := do
  let parent ← root.parent?
  if parent.kind == .returnStatement then some (returnedBy parent)
  else
    match root.arrowBodyOwner? with
    | some owner => arrowBodyOf? owner
    | none =>
        if parent.kind == .lambdaExpression && (parent.child? .body).any root.same then
          some .returnInLambda
        else none

/-- Argument, at any depth, of a call or construction that is itself returned; getters of
properties are left to the rules for arguments. -/
def returnedAsArgument? (root : Node) : Option Placement :=
  match found : root.argumentOwner? with
  | none => none
  | some owner =>
      match returned? owner.valueRoot with
      | some placement => if placement.isGetterReturn then none else some placement
      | none =>
          have := Node.depth_lt_of_argument_owner found
          have := Node.depth_value_root_le owner
          returnedAsArgument? owner.valueRoot
termination_by root.depth

/-- Element of an array or of a collection initializer; initializers may nest. -/
def initializerElement? (root : Node) : Option Placement := do
  let outermost ← (root.ancestors.takeWhile fun ancestor =>
    ancestor.kind == .initializerExpression).getLast?
  let holder ← outermost.parent?
  match holder.kind with
  | .arrayCreationExpression | .implicitArrayCreationExpression =>
      some (.arrayInitializerElement
        (holder.valueRoot.argumentOwner?.filter fun owner => owner.kind.isConstruction))
  | .objectCreationExpression | .implicitObjectCreationExpression =>
      some (.collectionInitializerElement holder)
  | .variableDeclarator | .equalsValueClause => some (.arrayInitializerElement none)
  | _ => none

def initialisedProperty? (root : Node) : Option Node :=
  root.initialised?.filter fun node => node.kind == .propertyDeclaration

def argumentPlacement (owner : Node) : Placement :=
  if owner.kind == .invocationExpression then .argumentOfInvocation owner
  else .argumentOfConstruction owner

namespace Audit

variable (audit : Audit)

def returnedLater (root : Node) (name : String) : Bool :=
  (audit.regionAt? root).any fun region => region.returnsAfter name root.stop

def declared (root : Node) (declarator : Source.Declarator) : Placement :=
  if declarator.isField then .fieldDeclaration declarator.name
  else if audit.returnedLater root declarator.name.text then .returnLater
  else .localDeclaration declarator.name

def storedUnder (root target name : Node) : Placement :=
  match (audit.model.symbolOf target).map Types.Symbol.kind with
  | some .localVariable | some .parameter =>
      if audit.returnedLater root name.text then .returnLater else .localAssignment name
  | some .property => .propertyAssignment name
  | _ => .fieldAssignment name

def assigned? (root : Node) : Option Placement := do
  let assignment ← root.parentOf? .assignmentExpression
  let _ ← (assignment.child? .right).filter root.same
  if (assignment.parentOf? .initializerExpression).isSome then some .memberAssignment
  else
    let left ← assignment.child? .left
    let target := left.unwrapValue
    match target.kind with
    | .identifier => some (audit.storedUnder root target target)
    | .memberAccessExpression =>
        let receiver ← target.child? .expression
        if receiver.isThis then
          let name ← target.child? .name
          some (audit.storedUnder root target name)
        else some .memberAssignment
    | _ => some .memberAssignment

def releasesReceiver (invocation : Node) : Bool :=
  invocation.invokedName?.any audit.rules.isReleaseMethod

/-- Placement of a value that is outside of its wrappers. -/
def placeValue (root : Node) : Placement :=
  if root.invocationOnReceiver?.any audit.releasesReceiver then .releasedImmediately
  else
    ((returned? root).or <|
      (returnedAsArgument? root).or <|
      (root.argumentOwner?.map argumentPlacement).or <|
      (root.invocationOnReceiver?.map .methodChainLink).or <|
      (initializerElement? root).or <|
      (root.enclosingUsingHeader?.map fun _ => .usingHeader).or <|
      (root.declaratorOf?.map (audit.declared root)).or <|
      (audit.assigned? root).or <|
      (initialisedProperty? root).map .autoProperty).getD .anonymous

def place (node : Node) : Placement :=
  match (if node.kind == .invocationExpression then node.awaitedBy? else none) with
  | some await => .awaitedResult await
  | none => audit.placeValue node.valueRoot

end Audit

end ReleaseAudit.Verdict
