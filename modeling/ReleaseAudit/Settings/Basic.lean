import ReleaseAudit.Files.Folder
import ReleaseAudit.Types.Symbol

/-!
# Settings

Settings say which types hold a resource, which calls release one or take it
over, and which external types exist. A layer of settings extends the settings
below it: lists grow at their end and single values override.
-/

namespace ReleaseAudit

set_option autoImplicit false

inductive Severity where
  | error
  | warning
  | info
deriving DecidableEq, Repr

namespace Severity

def spelling : Severity → String
  | error => "error"
  | warning => "warning"
  | info => "info"

end Severity

inductive Profile where
  | default
  | strict
  | medium
  | low
  | informative
deriving DecidableEq, Repr

namespace Profile

def severity : Profile → Severity
  | strict => .error
  | medium => .warning
  | default | low | informative => .info

end Profile

/-- Methods of one type, each written as `Name` or `Name(Param.Type, ...)`. -/
structure MethodRule where
  typeName : String
  methods : List String
deriving DecidableEq, Repr

/-- A constructor parameter by which the caller keeps ownership. -/
structure LeaveOpen where
  name : String
  index : Nat
deriving DecidableEq, Repr

/-- A type whose constructor takes over a resource argument. -/
structure TrackingRule where
  typeName : String
  leaveOpen : Option LeaveOpen
deriving DecidableEq, Repr

structure KnownMember where
  name : String
  kind : Types.MemberKind
  returns : Option String
  /-- Parameter types; absent when any number of arguments fits. -/
  parameters : Option (List String)
  isStatic : Bool
  isExtension : Bool
  /-- The result is the explicit generic argument at this index. -/
  returnsTypeArgument : Option Nat
deriving DecidableEq, Repr

structure KnownType where
  name : String
  kind : Types.TypeKind
  bases : List String
  members : List KnownMember
deriving DecidableEq, Repr

structure Settings where
  /-- Whether the settings below stay in force; they do unless this says no. -/
  extendDefaults : Option Bool := none
  diagnosticId : Option String := none
  profile : Option Profile := none
  disposalContracts : List String := []
  releaseMethods : List String := []
  releaseDesignatedMethods : List String := []
  ignoredTypes : List String := []
  implicitUsings : List String := []
  ownershipTransfer : List MethodRule := []
  releaseEquivalent : List MethodRule := []
  ignoredFactories : List MethodRule := []
  trackingTypes : List TrackingRule := []
  knownTypes : List KnownType := []
deriving DecidableEq, Repr

namespace Settings

/-- Puts the layer `upper` on top of `lower`. -/
def extend (lower upper : Settings) : Settings :=
  if upper.extendDefaults = some false then upper
  else
    { lower with
      diagnosticId := upper.diagnosticId.or lower.diagnosticId
      profile := upper.profile.or lower.profile
      disposalContracts := lower.disposalContracts ++ upper.disposalContracts
      releaseMethods := lower.releaseMethods ++ upper.releaseMethods
      releaseDesignatedMethods :=
        lower.releaseDesignatedMethods ++ upper.releaseDesignatedMethods
      ignoredTypes := lower.ignoredTypes ++ upper.ignoredTypes
      implicitUsings := lower.implicitUsings ++ upper.implicitUsings
      ownershipTransfer := lower.ownershipTransfer ++ upper.ownershipTransfer
      releaseEquivalent := lower.releaseEquivalent ++ upper.releaseEquivalent
      ignoredFactories := lower.ignoredFactories ++ upper.ignoredFactories
      trackingTypes := lower.trackingTypes ++ upper.trackingTypes
      knownTypes := lower.knownTypes ++ upper.knownTypes }

def severity (settings : Settings) : Severity :=
  (settings.profile.getD .default).severity

end Settings

inductive SettingsError where
  | unreadable (path : String) (cause : Files.ReadError)
  | malformed (origin : String)
  | signature (pattern : String)
deriving DecidableEq, Repr

namespace SettingsError

def message : SettingsError → String
  | unreadable path cause => "failed to read " ++ path ++ ": " ++ cause.message
  | malformed origin => "invalid configuration in " ++ origin
  | signature pattern => "invalid method signature `" ++ pattern ++ "`"

end SettingsError

end ReleaseAudit
