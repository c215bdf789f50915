import ReleaseAudit.Verdict.Region

/-!
# How locals and members are released
-/

namespace ReleaseAudit.Verdict.Audit

set_option autoImplicit false

open Source (Node)
open ReleaseAudit.Types (TypeSymbol)

variable (audit : Audit)

/-- A reference in a `using` header releases, unless it only feeds a construction that leaves
the resource to the caller. -/
def headerReferenceReleases (reference : Node) : Bool :=
  match reference.valueRoot.argumentOwner? with
  | some owner => !owner.kind.isConstruction || audit.isTrackedConstruction owner
  | none => true

def passesTo (node : Node) (name : String) : Bool :=
  (node.arguments.filterMap Node.argumentValue?).any fun value => value.refersTo name

/-- `bag.Add(x)`, or the extension form `x.DisposeWith(bag)`. -/
def transfersToCall (invocation : Node) (name : String) : Bool :=
  if passesTo invocation name then audit.tracksOwnership invocation
  else
    isCalledOn invocation name && audit.tracksOwnership invocation &&
      (audit.model.symbolOf invocation).any fun symbol => symbol.isExtension

/-- `x.Close()`, where the rules say that it releases a resource of this type. -/
def isReleaseEquivalent (invocation : Node) (name : String) (resource : TypeSymbol) : Bool :=
  isCalledOn invocation name && invocation.invokedName?.any fun invoked =>
    audit.rules.releaseEquivalent.any fun rule =>
      resource.implements rule.typeName &&
        rule.methods.any fun pattern => pattern.name == invoked

def invocationReleases (invocation : Node) (name : String) (resource : TypeSymbol) : Bool :=
  audit.isReleaseCallOn invocation name || audit.transfersToCall invocation name ||
    audit.isReleaseEquivalent invocation name resource

def constructionReleases (creation : Node) (name : String) : Bool :=
  passesTo creation name && audit.isTrackedConstruction creation

/-- The local `name`, holding a resource created at `site`, is released or handed over in its
scope. -/
def isReleasedLocally (site : Node) (name : String) (resource : TypeSymbol) : Bool :=
  match audit.regionAt? site with
  | none => false
  | some region =>
      (region.headerReferences name).any audit.headerReferenceReleases ||
        (region.invocations.any fun invocation =>
          audit.invocationReleases invocation name resource) ||
        region.creations.any fun creation => audit.constructionReleases creation name

/-- A method in which the type around `site` releases its members releases the member `name`. -/
def isMemberReleased (site : Node) (name : String) (resource : TypeSymbol) : Bool :=
  (audit.releaseDesignatedMethods site).any fun method =>
    (method.descendantsOf .invocationExpression).any fun invocation =>
      audit.isReleaseCallOn invocation name || audit.isReleaseEquivalent invocation name resource

end ReleaseAudit.Verdict.Audit
