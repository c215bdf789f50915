import ReleaseAudit.Json.Basic
import ReleaseAudit.Report.Snippet

/-!
# Reports
-/

namespace ReleaseAudit.Report

set_option autoImplicit false

open Verdict (Diagnostic Location)

inductive Format where
  | diagnostic
  | json
deriving DecidableEq, Repr

namespace Format

def spelling : Format → String
  | diagnostic => "diagnostic"
  | json => "json"

def spellings : List (String × Format) :=
  [("diagnostic", diagnostic), ("diag", diagnostic), ("human", diagnostic), ("json", json)]

def parse? (text : String) : Option Format :=
  spellings.lookup (text.map Char.toLower)

def unknownMessage (text : String) : String :=
  "unknown format `" ++ text ++ "`, expected one of: " ++
    String.intercalate ", " ([diagnostic, json].map spelling)

end Format

def locationJson (location : Location) : Json :=
  .object
    [("path", .string location.path), ("start_byte", .number location.startByte),
      ("end_byte", .number location.endByte), ("start_line", .number location.startLine),
      ("start_column", .number location.startColumn), ("end_line", .number location.endLine),
      ("end_column", .number location.endColumn)]

def diagnosticJson (diagnostic : Diagnostic) : Json :=
  .object
    ([("id", .string diagnostic.id), ("severity", .string diagnostic.severity.spelling),
      ("kind", .string diagnostic.holder.code), ("source", .string diagnostic.origin.code),
      ("location", locationJson diagnostic.location), ("type_name", .string diagnostic.typeName),
      ("message", .string diagnostic.message)] ++
      (diagnostic.variableName.map fun name => ("variable_name", Json.string name)).toList)

def documentJson (diagnostics : List Diagnostic) : Json :=
  .object
    [("count", .number diagnostics.length),
      ("diagnostics", .array (diagnostics.map diagnosticJson))]

def render (format : Format) (sources : Sources) (diagnostics : List Diagnostic) : String :=
  match format with
  | .diagnostic => renderText sources diagnostics
  | .json => (documentJson diagnostics).pretty ++ "\n"

end ReleaseAudit.Report
