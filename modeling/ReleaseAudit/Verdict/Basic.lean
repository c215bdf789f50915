import ReleaseAudit.Verdict.Diagnostic
import ReleaseAudit.Verdict.Placement
import ReleaseAudit.Verdict.Release

/-!
# Verdicts

Each creation is placed, its type is resolved, and its placement decides
whether somebody releases it. A creation that nobody releases gives one
diagnostic.
-/

namespace ReleaseAudit.Verdict

set_option autoImplicit false

open Inference (Model)
open Rules (Ruleset)
open Source (Document Node)
open ReleaseAudit.Types (TypeSymbol)

inductive Decision where
  | released
  | unreleased (holder : Holder) (name : Option String)
deriving DecidableEq, Repr

namespace Decision

def ofRelease (released : Bool) : Decision :=
  if released then .released else .unreleased .anonymous none

def ofNamed (holder : Holder) (name : String) (released : Bool) : Decision :=
  if released then .released else .unreleased holder (some name)

end Decision

namespace Audit

variable (audit : Audit)

def decideMember (site name : Node) (resource : TypeSymbol) (holder : Holder) : Decision :=
  .ofNamed holder name.text (audit.isMemberReleased site name.text resource)

def decideLocal (site name : Node) (resource : TypeSymbol) : Decision :=
  .ofNamed .localVariable name.text (audit.isReleasedLocally site name.text resource)

/-- Whether the resource created at `site` is released, by its placement. There is no answer where
the search along a chain of calls does not end. -/
def decide? (placement : Placement) (site : Node) (resource : TypeSymbol) : Option Decision :=
  match placement with
  | .awaitedResult _ | .releasedImmediately | .returnInBlock | .returnArrowBody
  | .returnInLambda | .returnLater | .usingHeader => some .released
  | .propertyReturn property | .propertyExpressionBody property | .autoProperty property =>
      match property.declarationName? with
      | some name => some (audit.decideMember site name resource .property)
      | none => some (.ofRelease false)
  | .argumentOfInvocation invocation => some (.ofRelease (audit.tracksOwnership invocation))
  | .methodChainLink invocation => (audit.chainTracks? invocation).map .ofRelease
  | .argumentOfConstruction creation | .collectionInitializerElement creation =>
      some (.ofRelease (audit.isTrackedConstruction creation))
  | .arrayInitializerElement owner => some (.ofRelease (owner.any audit.isTrackedConstruction))
  | .localDeclaration name | .localAssignment name => some (audit.decideLocal site name resource)
  | .fieldDeclaration name | .fieldAssignment name =>
      some (audit.decideMember site name resource .field)
  | .propertyAssignment name => some (audit.decideMember site name resource .property)
  | .memberAssignment | .anonymous => some (.ofRelease false)

/-- How a node creates a resource; calls that are ignored or take ownership create none. -/
def originOf? (node : Node) : Option Origin :=
  if node.kind.isConstruction then some .objectCreation
  else if node.kind == .invocationExpression then
    if audit.isIgnoredFactory node || audit.tracksOwnership node then none else some .invocation
  else none

/-- Placement and type of the created value; for an awaited call, those of its result. -/
def valueOf? (node : Node) : Option (Placement × TypeSymbol) :=
  match audit.place node with
  | .awaitedResult await =>
      (audit.model.typeOf await).map fun type => (audit.placeValue await.valueRoot, type)
  | placement => (audit.model.typeOf node).map fun type => (placement, type)

def report (document : Document) (node : Node) (origin : Origin) (type : TypeSymbol) :
    Decision → Option Diagnostic
  | .released => none
  | .unreleased holder name =>
      some
        { id := audit.rules.diagnosticId
          severity := audit.rules.severity
          holder := holder
          origin := origin
          location := Location.ofNode document node
          variableName := name
          typeName := type.simpleName }

def resourceOf? (node : Node) : Option (Origin × Placement × TypeSymbol) := do
  let origin ← audit.originOf? node
  let (placement, type) ← audit.valueOf? node
  if audit.rules.needsRelease type then some (origin, placement, type) else none

/-- The diagnostic for one node, when it creates a resource that nobody releases. There is no
answer, not even that there is no diagnostic, where the decision has none. -/
def diagnose? (document : Document) (node : Node) : Option (Option Diagnostic) :=
  match audit.resourceOf? node with
  | none => some none
  | some (origin, placement, type) =>
      (audit.decide? placement node type).map (audit.report document node origin type)

end Audit

def creationSites (document : Document) : List Node :=
  document.root.descendants.filter fun node => node.kind.isCreation

def diagnoseDocument? (model : Model) (rules : Ruleset) (document : Document) :
    Option (List Diagnostic) :=
  ((creationSites document).mapM (Audit.diagnose? ⟨model, rules⟩ document)).map
    (List.filterMap id)

def diagnoseWith? (model : Model) (rules : Ruleset) (documents : List Document) :
    Option (List Diagnostic) :=
  (documents.mapM (diagnoseDocument? model rules)).map List.flatten

/-- Diagnostics of documents compiled together. -/
def diagnoseAll? (rules : Ruleset) (documents : List Document) : Option (List Diagnostic) :=
  diagnoseWith? (Model.ofDocuments rules.catalog documents) rules documents

end ReleaseAudit.Verdict
