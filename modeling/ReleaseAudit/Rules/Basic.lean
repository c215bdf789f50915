import ReleaseAudit.Declarations.Catalog
import ReleaseAudit.Rules.Pattern
import ReleaseAudit.Settings.Builtin

/-!
# Rule sets

Settings compiled for an audit, with the questions that they answer about a
single type or method name.
-/

namespace ReleaseAudit.Rules

set_option autoImplicit false

open Declarations (Catalog)
open ReleaseAudit.Types (TypeSymbol)

structure Ruleset where
  diagnosticId : String
  severity : Severity
  disposalContracts : List String
  releaseMethods : List String
  releaseDesignatedMethods : List String
  ignoredTypes : List String
  ownershipTransfer : List TypeRule
  releaseEquivalent : List TypeRule
  ignoredFactories : List TypeRule
  trackingTypes : List TrackingRule
  catalog : Catalog

namespace Ruleset

def defaultId : String := "DISP001"

def ofSettings (settings : Settings) : Except SettingsError Ruleset := do
  let ownershipTransfer ← settings.ownershipTransfer.mapM TypeRule.ofSetting
  let releaseEquivalent ← settings.releaseEquivalent.mapM TypeRule.ofSetting
  let ignoredFactories ← settings.ignoredFactories.mapM TypeRule.ofSetting
  return {
    diagnosticId := settings.diagnosticId.getD defaultId
    severity := settings.severity
    disposalContracts := settings.disposalContracts
    releaseMethods := settings.releaseMethods
    releaseDesignatedMethods := settings.releaseDesignatedMethods
    ignoredTypes := settings.ignoredTypes
    ownershipTransfer := ownershipTransfer
    releaseEquivalent := releaseEquivalent
    ignoredFactories := ignoredFactories
    trackingTypes := settings.trackingTypes
    catalog := Catalog.ofSettings settings }

def isReleaseMethod (rules : Ruleset) (name : String) : Bool :=
  rules.releaseMethods.contains name

def isReleaseDesignated (rules : Ruleset) (name : String) : Bool :=
  rules.releaseDesignatedMethods.contains name

/-- The type holds a resource. -/
def isTracked (rules : Ruleset) (type : TypeSymbol) : Bool :=
  rules.disposalContracts.any type.implements

def isIgnored (rules : Ruleset) (type : TypeSymbol) : Bool :=
  rules.ignoredTypes.any type.implements

/-- Instances of the type have to be released. -/
def needsRelease (rules : Ruleset) (type : TypeSymbol) : Bool :=
  rules.isTracked type && !rules.isIgnored type

/-- The first rule by which constructing the type takes over an argument. -/
def trackingRule? (rules : Ruleset) (type : TypeSymbol) : Option TrackingRule :=
  rules.trackingTypes.find? fun rule => type.implements rule.typeName

end Ruleset

end ReleaseAudit.Rules
