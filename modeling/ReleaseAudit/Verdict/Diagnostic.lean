import ReleaseAudit.Settings.Basic
import ReleaseAudit.Source.Document

/-!
# Diagnostics

A diagnostic says that a resource is created at a place and never released.
-/

namespace ReleaseAudit.Verdict

set_option autoImplicit false

inductive Holder where
  | localVariable
  | field
  | property
  | anonymous
deriving DecidableEq, Repr

namespace Holder

def label : Holder → String
  | localVariable => "local"
  | field => "field"
  | property => "property"
  | anonymous => "anonymous"

def code (holder : Holder) : String :=
  "unreleased_" ++ holder.label

def all : List Holder :=
  [localVariable, field, property, anonymous]

end Holder

inductive Origin where
  | objectCreation
  | invocation
deriving DecidableEq, Repr

namespace Origin

def code : Origin → String
  | objectCreation => "object_creation"
  | invocation => "invocation"

def all : List Origin :=
  [objectCreation, invocation]

end Origin

/-- Extent of an expression, in bytes and in zero-based lines and character columns. -/
structure Location where
  path : String
  startByte : Nat
  endByte : Nat
  startLine : Nat
  startColumn : Nat
  endLine : Nat
  endColumn : Nat
deriving DecidableEq, Repr

namespace Location

def ofNode (document : Source.Document) (node : Source.Node) : Location :=
  let start := Text.position document.text node.start
  let stop := Text.position document.text node.stop
  ⟨document.path, node.start, node.stop, start.line.toNat, start.column.toNat, stop.line.toNat,
    stop.column.toNat⟩

end Location

structure Diagnostic where
  id : String
  severity : Severity
  holder : Holder
  origin : Origin
  location : Location
  variableName : Option String
  typeName : String
deriving DecidableEq, Repr

namespace Diagnostic

def message (diagnostic : Diagnostic) : String :=
  let type := "`" ++ diagnostic.typeName ++ "`"
  let held := fun (holder : Holder) =>
    holder.label ++ " `" ++ diagnostic.variableName.getD "?" ++ "` holds a " ++ type ++
      " that is never disposed"
  match diagnostic.holder, diagnostic.origin with
  | .anonymous, .objectCreation => type ++ " created here is never disposed"
  | .anonymous, .invocation => type ++ " returned by this call is never disposed"
  | holder, _ => held holder

def summary (diagnostic : Diagnostic) : String :=
  diagnostic.location.path ++ ":" ++ toString (diagnostic.location.startLine + 1) ++ ":" ++
    toString (diagnostic.location.startColumn + 1) ++ ": " ++ diagnostic.severity.spelling ++
    "[" ++ diagnostic.id ++ "]: " ++ diagnostic.message

end Diagnostic

end ReleaseAudit.Verdict
