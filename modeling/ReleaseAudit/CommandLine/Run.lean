import ReleaseAudit.CommandLine.Arguments
import ReleaseAudit.Report.Basic
import ReleaseAudit.Settings.Schema
import ReleaseAudit.Verdict.Basic

/-!
# Running a command

A run ends with an exit code and two texts, or goes on as a language server
under the loaded rules, or goes on for ever because its audit does.
-/

namespace ReleaseAudit.CommandLine

set_option autoImplicit false

open Files (Folder ReadError)
open Report (Format)
open Rules (Ruleset)
open Source (Document Parser)
open Verdict (Diagnostic)

structure Outcome where
  exitCode : Nat
  output : String
  errors : String
deriving DecidableEq, Repr

inductive Action where
  | finish (outcome : Outcome)
  /-- The audit never ends, and nothing is printed. -/
  | runOn
  | serve (rules : Ruleset)

inductive RunError where
  | settings (cause : SettingsError)
  | noInput
  | unreadable (path : String) (cause : ReadError)
  | noSources
deriving DecidableEq, Repr

namespace RunError

def message : RunError → String
  | settings cause => cause.message
  | noInput => "no input files; pass C# files or directories"
  | unreadable path _ => "failed to read " ++ path
  | noSources => "no `.cs` files found"

def cause? : RunError → Option ReadError
  | settings (.unreadable _ cause) | unreadable _ cause => some cause
  | _ => none

/-- What is printed. What is wrong inside a settings file would follow its name on the same
line. -/
def report (error : RunError) : String :=
  match error with
  | settings (.malformed _) => "Error: " ++ error.message
  | _ =>
      "Error: " ++ error.message ++ "\n" ++
        ((error.cause?.map fun cause => "\nCaused by:\n    " ++ cause.message ++ "\n").getD "")

def outcome (error : RunError) : Outcome :=
  ⟨1, "", error.report⟩

end RunError

def loadRules (folder : Folder) (path : Option String) : Except RunError Ruleset :=
  (Settings.load folder path >>= Ruleset.ofSettings).mapError .settings

/-- Files that a path stands for: itself, or the source files below a directory. -/
def sourcesAt (folder : Folder) (path : String) : List String :=
  if folder.isDirectory path then (folder.sourcesBelow path).filter folder.isFile else [path]

def readSource (parser : Parser) (folder : Folder) (path : String) :
    Except RunError Document :=
  match folder.read path with
  | .ok text => .ok (Document.parse parser path text)
  | .error cause => .error (.unreadable path cause)

def readSources (parser : Parser) (folder : Folder) (paths : List String) :
    Except RunError (List Document) :=
  if paths.isEmpty then .error .noInput
  else do
    let documents ← (paths.flatMap (sourcesAt folder)).mapM (readSource parser folder)
    if documents.isEmpty then .error .noSources else .ok documents

def counted (count : Nat) (noun : String) : String :=
  toString count ++ " " ++ noun ++ if count = 1 then "" else "s"

def conclude (format : Format) (documents : List Document) (diagnostics : List Diagnostic) :
    Outcome :=
  let sources : Report.Sources :=
    ⟨documents.map fun document => (document.path, document.text)⟩
  { exitCode := if diagnostics.isEmpty then 0 else 1
    output := Report.render format sources diagnostics
    errors :=
      match format with
      | .diagnostic =>
          counted diagnostics.length "unreleased resource" ++ " in " ++
            counted documents.length "file" ++ "\n"
      | .json => "" }

/-- The outcome of an audit, if the audit ends. -/
def check (parser : Parser) (folder : Folder) (format : Format) (settings : Option String)
    (paths : List String) : Except RunError (Option Outcome) := do
  let rules ← loadRules folder settings
  let documents ← readSources parser folder paths
  return (Verdict.diagnoseAll? rules documents).map (conclude format documents)

def optionRows (rows : List (String × String)) : String :=
  let width := (rows.map fun row => row.1.length).foldl max 0
  String.join (rows.map fun row =>
    "    " ++ row.1 ++ Report.blanks (width - row.1.length) ++ "  " ++ row.2 ++ "\n")

def helpRow : String × String := ("-h, --help", "Prints help information")

def configRow : String × String :=
  ("-c, --config=FILE", "Configuration file extending the built-in defaults")

def helpText : Topic → String
  | .program =>
      "Static analyzer for C# objects that implement IDisposable and are never disposed\n\n" ++
        "Usage: disposal-lint COMMAND ...\n\nAvailable options:\n" ++
        optionRows [helpRow, ("-V, --version", "Prints version information")] ++
        "\nAvailable commands:\n" ++
        optionRows
          [("check", "Analyze C# files and report unreleased resources"),
            ("lsp", "Start LSP server")]
  | .check =>
      "Analyze C# files and report unreleased resources\n\n" ++
        "Usage: disposal-lint check [-f=FORMAT] [-c=FILE] [PATH]...\n\n" ++
        "Available positional items:\n" ++
        optionRows [("PATH", "C# files, or directories searched for `*.cs` files")] ++
        "\nAvailable options:\n" ++
        optionRows
          [("-f, --format=FORMAT", "Output format [diagnostic (default), json]"), configRow,
            helpRow]
  | .lsp =>
      "Start LSP server\n\nUsage: disposal-lint lsp [-c=FILE]\n\nAvailable options:\n" ++
        optionRows [configRow, helpRow]

def versionText : String := "Version: 0.1.0\n"

def perform (parser : Parser) (folder : Folder) : Command → Action
  | .check format settings paths =>
      match check parser folder format settings paths with
      | .ok (some outcome) => .finish outcome
      | .ok none => .runOn
      | .error error => .finish error.outcome
  | .lsp settings =>
      match loadRules folder settings with
      | .ok rules => .serve rules
      | .error error => .finish error.outcome
  | .help topic => .finish ⟨0, helpText topic, ""⟩
  | .version => .finish ⟨0, versionText, ""⟩

def start (parser : Parser) (folder : Folder) (texts : List String) : Action :=
  match parse texts with
  | .ok command => perform parser folder command
  | .error error => .finish ⟨2, "", "Error: " ++ error.message ++ "\n"⟩

end ReleaseAudit.CommandLine
