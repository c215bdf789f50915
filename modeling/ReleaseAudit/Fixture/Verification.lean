import ReleaseAudit.Fixture.Matching
import ReleaseAudit.Settings.Basic
import ReleaseAudit.Text.Position
import ReleaseAudit.Verdict.Basic

/-!
# Verifying a fixture

Every outermost type declaration of a fixture is a case. What lies outside all
of them is one more case, when there is anything. A case fails when one of its
lines does not give exactly the expected diagnostics.
-/

namespace ReleaseAudit.Fixture

set_option autoImplicit false

open Rules (Ruleset)
open Source (Document Node)
open Verdict (Diagnostic)

structure Case where
  name : String
  firstLine : Nat
  lastLine : Nat
deriving DecidableEq, Repr

namespace Case

def contains (case : Case) (line : Nat) : Bool :=
  case.firstLine ≤ line && line ≤ case.lastLine

def ofNode (document : Document) (node : Node) : Case :=
  let row := document.firstRow node
  { name :=
      (node.declarationName?.map Node.text).getD ("<anonymous@" ++ toString (row + 1) ++ ">")
    firstLine := row
    lastLine := document.lastRow node }

/-- Cases of a document: type declarations that no other encloses. -/
def ofDocument (document : Document) : List Case :=
  (document.root.descendants.filter fun node =>
    node.kind.isTypeDeclaration && node.enclosingType?.isNone).map (ofNode document)

def topLevel : String := "(top level)"

end Case

structure Failure where
  case : String
  line : Nat
  mismatch : Mismatch
  sourceLine : String
deriving DecidableEq, Repr

def Failure.message (failure : Failure) : String :=
  "line " ++ toString failure.line ++ ": " ++ failure.mismatch.message ++
    if failure.sourceLine.isEmpty then ""
    else "\n          | " ++ Text.trim failure.sourceLine

structure CaseResult where
  name : String
  failures : List Failure
deriving DecidableEq, Repr

def CaseResult.passed (result : CaseResult) : Bool :=
  result.failures.isEmpty

structure FixtureResult where
  path : String
  summary : Option String
  cases : List CaseResult
deriving DecidableEq, Repr

namespace FixtureResult

def passed (result : FixtureResult) : Bool :=
  result.cases.all CaseResult.passed

def passCount (result : FixtureResult) : Nat :=
  result.cases.countP CaseResult.passed

def failCount (result : FixtureResult) : Nat :=
  result.cases.countP fun case => !case.passed

def caseRows (result : CaseResult) : List String :=
  if result.passed then ["  ✓ " ++ result.name]
  else ("  ✗ " ++ result.name) :: result.failures.map fun failure => "      " ++ failure.message

def render (result : FixtureResult) : String :=
  String.join ((result.path :: result.cases.flatMap caseRows).map (· ++ "\n")) ++
    "\n" ++ toString result.passCount ++ " passed, " ++ toString result.failCount ++ " failed\n"

end FixtureResult

inductive VerifyError where
  | unreadable (path : String) (cause : Files.ReadError)
  | malformed (errors : List ExpectationError)
  | settings (cause : SettingsError)
  | failing (result : FixtureResult)
deriving DecidableEq, Repr

namespace VerifyError

def message : VerifyError → String
  | unreadable path cause => "Failed to read " ++ path ++ ": " ++ cause.message
  | malformed errors =>
      "Parse errors:\n" ++ String.join (errors.map fun error => "  " ++ error.message ++ "\n")
  | settings cause => "Failed to load configuration: " ++ cause.message
  | failing result =>
      ((result.summary.map (· ++ "\n")).getD "") ++ result.render

end VerifyError

def summaryOf? (text : String) : Option String :=
  let comments := ((Text.lines text).map Text.trimStart).takeWhile fun line =>
    Text.startsWith "//" line && !Text.startsWith Expectation.marker line
  if comments.isEmpty then none
  else
    some (String.intercalate "\n" (comments.map fun line =>
      Text.trim (String.ofList (line.toList.dropWhile (· == '/')))))

def insertLine (line : Nat) : List Nat → List Nat
  | [] => [line]
  | head :: rest =>
      if line = head then head :: rest
      else if line < head then line :: head :: rest
      else head :: insertLine line rest

/-- Lines with an expectation or a diagnostic, ascending. -/
def linesOf (expectations : Expectations) (diagnostics : List Diagnostic) : List Nat :=
  (expectations.lines ++ diagnostics.map fun diagnostic => diagnostic.location.startLine).foldr
    insertLine []

def diagnosticsOn (line : Nat) (diagnostics : List Diagnostic) : List Diagnostic :=
  diagnostics.filter fun diagnostic => diagnostic.location.startLine == line

def lineFailures (case : String) (sourceLines : List String) (expectations : Expectations)
    (diagnostics : List Diagnostic) (line : Nat) : List Failure :=
  (matchLine (expectations.get line) (diagnosticsOn line diagnostics)).map fun mismatch =>
    ⟨case, line + 1, mismatch, (sourceLines[line]?).getD ""⟩

def verifyCase (case : String) (sourceLines : List String) (expectations : Expectations)
    (diagnostics : List Diagnostic) : CaseResult :=
  ⟨case,
    (linesOf expectations diagnostics).flatMap
      (lineFailures case sourceLines expectations diagnostics)⟩

def verifyCases (cases : List Case) (sourceLines : List String) (expectations : Expectations)
    (diagnostics : List Diagnostic) : List CaseResult :=
  let inside := fun (condition : Nat → Bool) =>
    diagnostics.filter fun diagnostic => condition diagnostic.location.startLine
  let outside := fun line => !cases.any fun case => case.contains line
  let stray := expectations.keep outside
  (cases.map fun case =>
    verifyCase case.name sourceLines (expectations.keep case.contains) (inside case.contains)) ++
    if stray.isEmpty && (inside outside).isEmpty then []
    else [verifyCase Case.topLevel sourceLines stray (inside outside)]

/-- Compares the diagnostics of a document, compiled alone, with its comments, if the audit of the
document ends. -/
def verify? (rules : Ruleset) (document : Document) : Option (Except VerifyError FixtureResult) :=
  let (expectations, errors) := Expectations.ofDocument document
  if errors.isEmpty then
    (Verdict.diagnoseAll? rules [document]).map fun diagnostics =>
      let result : FixtureResult :=
        { path := document.path
          summary := summaryOf? document.text
          cases :=
            verifyCases (Case.ofDocument document) (Text.lines document.text) expectations
              diagnostics }
      if result.passed then .ok result else .error (.failing result)
  else some (.error (.malformed errors))

end ReleaseAudit.Fixture
