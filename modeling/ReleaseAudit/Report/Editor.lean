import ReleaseAudit.Json.Basic
import ReleaseAudit.Verdict.Diagnostic

/-!
# Diagnostics for editors

Editors count columns in UTF-16 units, so ranges are computed from the bytes of
the document.
-/

namespace ReleaseAudit.Report

set_option autoImplicit false

open Text (Position)
open Verdict (Diagnostic)

structure EditorDiagnostic where
  start : Position
  stop : Position
  severity : Nat
  code : String
  message : String
deriving DecidableEq, Repr

namespace EditorDiagnostic

def source : String := "disposal-lint"

def severityNumber : Severity → Nat
  | .error => 1
  | .warning => 2
  | .info => 3

/-- A diagnostic located in the document with the given text. -/
def ofDiagnostic (text : String) (diagnostic : Diagnostic) : EditorDiagnostic :=
  { start := Text.positionUtf16 text diagnostic.location.startByte
    stop := Text.positionUtf16 text diagnostic.location.endByte
    severity := severityNumber diagnostic.severity
    code := diagnostic.id
    message := diagnostic.message }

def positionJson (position : Position) : Json :=
  .object
    [("line", .number position.line.toNat), ("character", .number position.column.toNat)]

def toJson (diagnostic : EditorDiagnostic) : Json :=
  .object
    [("range",
        .object [("start", positionJson diagnostic.start), ("end", positionJson diagnostic.stop)]),
      ("severity", .number diagnostic.severity), ("code", .string diagnostic.code),
      ("source", .string source), ("message", .string diagnostic.message)]

end EditorDiagnostic

end ReleaseAudit.Report
