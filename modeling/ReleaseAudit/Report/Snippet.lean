import ReleaseAudit.Files.Path
import ReleaseAudit.Verdict.Diagnostic

/-!
# Reports as text

Each diagnostic shows its place, the source line with the creation underlined,
and what to do about it. Tabs before the creation are kept under the line, so
that the underline stays aligned.
-/

namespace ReleaseAudit.Report

set_option autoImplicit false

open Verdict (Diagnostic Holder)

/-- Texts by path; of two files with the same path the later one counts. -/
structure Sources where
  files : List (String × String)

namespace Sources

def text? (sources : Sources) (path : String) : Option String :=
  (sources.files.reverse.find? fun file => Files.Path.same file.1 path).map Prod.snd

def lines (sources : Sources) (path : String) : List String :=
  ((sources.text? path).map Text.lines).getD []

def line? (sources : Sources) (path : String) (index : Nat) : Option String :=
  (sources.lines path)[index]?

def lineCount (sources : Sources) (path : String) : Nat :=
  (sources.lines path).length

end Sources

def blanks (count : Nat) : String :=
  String.ofList (List.replicate count ' ')

def alignRight (width : Nat) (text : String) : String :=
  blanks (width - text.length) ++ text

def help : Holder → String
  | .localVariable => "wrap it in a `using` statement or call `.Dispose()` explicitly"
  | .field | .property => "dispose it from the containing type's `Dispose()` method"
  | .anonymous => "store it in a `using` declaration or pass it to an owner that disposes it"

def gutterWidth (diagnostic : Diagnostic) : Nat :=
  max (toString (diagnostic.location.startLine + 1)).length 2

/-- Blanks and tabs under the part of a line before a column. -/
def underlinePadding (line : List Char) (column : Nat) : List Char :=
  (line.take column).map fun character => if character = '\t' then '\t' else ' '

/-- Number of dashes under a line: to the end of the creation, or of the line when the creation
goes on below, and at least one. -/
def underlineWidth (diagnostic : Diagnostic) (line : List Char) : Nat :=
  let location := diagnostic.location
  let stop := if location.endLine = location.startLine then location.endColumn else line.length
  max (stop - location.startColumn) 1

def underline (diagnostic : Diagnostic) (line : List Char) : String :=
  String.ofList
    (underlinePadding line diagnostic.location.startColumn ++
      List.replicate (underlineWidth diagnostic line) '─')

def snippetRows (diagnostic : Diagnostic) (line : String) : List String :=
  let width := gutterWidth diagnostic
  [blanks width ++ " │",
    alignRight width (toString (diagnostic.location.startLine + 1)) ++ " │ " ++ line,
    blanks width ++ " │ " ++ underline diagnostic line.toList]

def rows (sources : Sources) (diagnostic : Diagnostic) : List String :=
  let location := diagnostic.location
  let margin := blanks (gutterWidth diagnostic)
  [diagnostic.severity.spelling ++ "[" ++ diagnostic.id ++ "]: " ++ diagnostic.message,
    margin ++ " ╭─ " ++ location.path ++ ":" ++ toString (location.startLine + 1) ++ ":" ++
      toString (location.startColumn + 1)] ++
    ((sources.line? location.path location.startLine).map (snippetRows diagnostic)).getD [] ++
    [margin ++ " ╰─ help: " ++ help diagnostic.holder]

def renderText (sources : Sources) (diagnostics : List Diagnostic) : String :=
  String.join (diagnostics.map fun diagnostic =>
    String.join ((rows sources diagnostic).map (· ++ "\n")) ++ "\n")

end ReleaseAudit.Report
