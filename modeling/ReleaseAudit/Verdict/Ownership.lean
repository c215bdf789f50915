import ReleaseAudit.Inference.Model
import ReleaseAudit.Rules.Basic
import ReleaseAudit.Source.Declaration

/-!
# Who takes over a resource

Calls and constructions may take over the release of a resource that is passed
to them. Rules are matched by the resolved method or type only; which argument
carries the resource is not asked.
-/

namespace ReleaseAudit.Verdict

set_option autoImplicit false

open Inference (Model)
open Rules (Ruleset TypeRule)
open Source (Node)

structure Audit where
  model : Model
  rules : Ruleset

namespace Audit

variable (audit : Audit)

def invocationCovered (invocation : Node) (rules : List TypeRule) : Bool :=
  invocation.kind == .invocationExpression &&
    (audit.model.symbolOf invocation).any fun symbol =>
      symbol.kind == .method && rules.any fun rule => rule.covers symbol

def tracksOwnership (invocation : Node) : Bool :=
  audit.invocationCovered invocation audit.rules.ownershipTransfer

def isIgnoredFactory (invocation : Node) : Bool :=
  audit.invocationCovered invocation audit.rules.ignoredFactories

/-- The argument of a leave-open parameter, by name or else by position, is `true`. -/
def leavesOpen (creation : Node) (leaveOpen : LeaveOpen) : Bool :=
  let byName := creation.arguments.find? fun argument =>
    argument.argumentName? == some leaveOpen.name
  let byPosition := creation.arguments[leaveOpen.index]?.filter fun argument =>
    argument.argumentName?.isNone
  ((byName.or byPosition).bind Node.argumentValue?).any fun value =>
    Text.trim value.text == "true"

/-- The constructed type owns its resource argument, and the caller does not keep it. -/
def isTrackedConstruction (creation : Node) : Bool :=
  match (audit.model.typeOf creation).bind audit.rules.trackingRule? with
  | none => false
  | some rule => !rule.leaveOpen.any (leavesOpen creation)

/-- The call on the result of a call. -/
def nextLink? (link : Node) : Option Node :=
  link.valueRoot.invocationOnReceiver?

inductive ChainEnd where
  | tracking (link : Node)
  | last (link : Node)

def ChainEnd.takesOwnership : ChainEnd → Bool
  | tracking _ => true
  | last _ => false

/-- Asks a link and at most `count` links after it. No answer means that there are more to ask. -/
def searchWithin (count : Nat) (link : Node) : Option ChainEnd :=
  if audit.tracksOwnership link then some (.tracking link)
  else
    match nextLink? link, count with
    | none, _ => some (.last link)
    | some _, 0 => none
    | some next, count + 1 => searchWithin count next

/-- The search from a call outward. A call that ends in an access which is not called, as in
`A()?.B`, is its own next link, so a search may go on for ever, and then there is no answer. One
that ends asks no more links after the first than there are nodes around it, and one beside. -/
def findTrackingLink? (first : Node) : Option ChainEnd :=
  audit.searchWithin (first.depth + 1) first

def chainTracks? (first : Node) : Option Bool :=
  (audit.findTrackingLink? first).map ChainEnd.takesOwnership

def isCalledOn (invocation : Node) (name : String) : Bool :=
  (invocation.callTarget?.bind Source.CallTarget.receiver).any fun receiver =>
    receiver.refersTo name

def isReleaseCallOn (invocation : Node) (name : String) : Bool :=
  (invocation.invokedName?.any audit.rules.isReleaseMethod) && isCalledOn invocation name

end Audit

end ReleaseAudit.Verdict
