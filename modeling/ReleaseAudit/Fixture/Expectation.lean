import ReleaseAudit.Verdict.Diagnostic

/-!
# Expectations

A comment that starts with `//~` says which diagnostics a line must give:
`//~ local: s, anonymous` for its own line, and one line further up for each
`^` after the marker. An expectation without a name accepts every name.
-/

namespace ReleaseAudit.Fixture

set_option autoImplicit false

open Source (Document Node)
open Verdict (Diagnostic Holder)

structure Expectation where
  holder : Holder
  /-- Absent when any name will do. -/
  name : Option String
  line : Nat
  written : String
deriving DecidableEq, Repr

def Expectation.accepts (expectation : Expectation) (diagnostic : Diagnostic) : Bool :=
  expectation.holder == diagnostic.holder &&
    expectation.name.all fun name => diagnostic.variableName == some name

inductive ExpectationError where
  | unknownKind (line : Nat) (kind : String)
  | unexpectedName (line : Nat) (text : String)
  | missingName (line : Nat) (kind : String)
  | offsetOutOfRange (line : Nat)
deriving DecidableEq, Repr

namespace ExpectationError

def line : ExpectationError → Nat
  | unknownKind line _ | unexpectedName line _ | missingName line _ | offsetOutOfRange line => line

def complaint : ExpectationError → String
  | unknownKind _ kind => "unknown diagnostic kind '" ++ kind ++ "'"
  | unexpectedName _ text => "anonymous diagnostics have no name: '" ++ text ++ "'"
  | missingName _ kind => "missing name after '" ++ kind ++ ":'"
  | offsetOutOfRange _ => "'^' points above the first line"

def message (error : ExpectationError) : String :=
  "line " ++ toString (error.line + 1) ++ ": " ++ error.complaint

end ExpectationError

namespace Expectation

def marker : String := "//~"

def holderOf? (label : String) : Option Holder :=
  Holder.all.find? fun holder => holder.label == Text.trim label

def splitName (text : String) : String × Option String :=
  match Text.splitFirst? ':' text with
  | some (label, name) => (Text.trim label, some (Text.trim name))
  | none => (text, none)

def parseOne (line : Nat) (text : String) : Except ExpectationError Expectation :=
  let (label, name) := splitName text
  match holderOf? label with
  | none => .error (.unknownKind line label)
  | some holder =>
      if name = some "" then .error (.missingName line label)
      else if holder = .anonymous ∧ name.isSome then .error (.unexpectedName line text)
      else .ok ⟨holder, name, line, text⟩

def partsOf (content : String) : List String :=
  ((Text.split ',' content).map Text.trim).filter fun part => !part.isEmpty

def parseContent (line : Nat) (content : String) : Except ExpectationError (List Expectation) :=
  (partsOf content).mapM (parseOne line)

def splitCarets (text : String) : Nat × String :=
  let carets := text.toList.takeWhile (· == '^')
  (carets.length, String.ofList (text.toList.dropWhile (· == '^')))

/-- Reads the text after the marker of a comment that stands on `row`: the line meant, and what it
must give. -/
def parseComment (row : Nat) (text : String) :
    Except ExpectationError (Nat × List Expectation) :=
  let (carets, content) := splitCarets text
  if carets ≤ row then
    (parseContent (row - carets) content).map fun expectations => (row - carets, expectations)
  else .error (.offsetOutOfRange row)

end Expectation

/-- Expectations by line, lines ascending. A line may be listed with none. -/
structure Expectations where
  byLine : List (Nat × List Expectation)
deriving DecidableEq, Repr

namespace Expectations

def empty : Expectations := ⟨[]⟩

def addTo (line : Nat) (added : List Expectation) :
    List (Nat × List Expectation) → List (Nat × List Expectation)
  | [] => [(line, added)]
  | entry :: rest =>
      if line = entry.1 then (line, entry.2 ++ added) :: rest
      else if line < entry.1 then (line, added) :: entry :: rest
      else entry :: addTo line added rest

def add (expectations : Expectations) (line : Nat) (added : List Expectation) : Expectations :=
  ⟨addTo line added expectations.byLine⟩

def get (expectations : Expectations) (line : Nat) : List Expectation :=
  (expectations.byLine.lookup line).getD []

def lines (expectations : Expectations) : List Nat :=
  expectations.byLine.map Prod.fst

def isEmpty (expectations : Expectations) : Bool :=
  expectations.byLine.isEmpty

def count (expectations : Expectations) : Nat :=
  (expectations.byLine.flatMap Prod.snd).length

def keep (expectations : Expectations) (condition : Nat → Bool) : Expectations :=
  ⟨expectations.byLine.filter fun entry => condition entry.1⟩

def within (expectations : Expectations) (first last : Nat) : Expectations :=
  expectations.keep fun line => first ≤ line && line ≤ last

def addComment (document : Document) (read : Expectations × List ExpectationError)
    (comment : Node) : Expectations × List ExpectationError :=
  match Text.dropHead? Expectation.marker comment.text with
  | none => read
  | some text =>
      match Expectation.parseComment (document.firstRow comment) text with
      | .ok (line, added) => (read.1.add line added, read.2)
      | .error error => (read.1, read.2 ++ [error])

def ofDocument (document : Document) : Expectations × List ExpectationError :=
  (document.root.descendantsOf .comment).foldl (addComment document) (empty, [])

end Expectations

end ReleaseAudit.Fixture
