import ReleaseAudit.Report.Basic
import ReleaseAudit.Text.Blank

/-!
# Command lines

The first word names the command. Options may stand anywhere after it, and their
value is attached or follows as the next word. After two dashes all words are
paths.
-/

namespace ReleaseAudit.CommandLine

set_option autoImplicit false

open Report (Format)

inductive Topic where
  | program
  | check
  | lsp
deriving DecidableEq, Repr

inductive Command where
  | check (format : Format) (settings : Option String) (paths : List String)
  | lsp (settings : Option String)
  | help (topic : Topic)
  | version
deriving DecidableEq, Repr

inductive UsageError where
  | unknownCommand (word : String)
  | unknownOption (word : String)
  | missingValue (option : String)
  | repeatedOption (option : String)
  | unexpectedWord (word : String)
  | unknownFormat (text : String)
deriving DecidableEq, Repr

namespace UsageError

def message : UsageError → String
  | unknownCommand word => "no such command: `" ++ word ++ "`"
  | unknownOption word => "`" ++ word ++ "` is not expected in this context"
  | missingValue option => "`--" ++ option ++ "` requires a value"
  | repeatedOption option => "`--" ++ option ++ "` cannot be used multiple times"
  | unexpectedWord word => "`" ++ word ++ "` is not expected in this context"
  | unknownFormat text => Format.unknownMessage text

end UsageError

inductive Word where
  | marker
  | long (name : String) (value : Option String)
  | short (letter : Char) (value : Option String)
  | plain
deriving DecidableEq, Repr

namespace Word

/-- What is attached to a short option, with or without an equals sign. -/
def attached : List Char → Option String
  | [] => none
  | '=' :: value => some (String.ofList value)
  | value => some (String.ofList value)

def ofText (text : String) : Word :=
  match text.toList with
  | ['-', '-'] => marker
  | '-' :: '-' :: rest =>
      match Text.splitFirst? '=' (String.ofList rest) with
      | some (name, value) => long name (some value)
      | none => long (String.ofList rest) none
  | '-' :: letter :: rest => short letter (attached rest)
  | _ => plain

end Word

inductive OptionName where
  | format
  | config
deriving DecidableEq, Repr

namespace OptionName

def long : OptionName → String
  | format => "format"
  | config => "config"

def short : OptionName → Char
  | format => 'f'
  | config => 'c'

end OptionName

structure Gathered where
  options : List (OptionName × String)
  paths : List String
deriving DecidableEq, Repr

namespace Gathered

def addOption (gathered : Gathered) (option : OptionName) (value : String) : Gathered :=
  { gathered with options := (option, value) :: gathered.options }

def addPath (gathered : Gathered) (path : String) : Gathered :=
  { gathered with paths := path :: gathered.paths }

def value (gathered : Gathered) (option : OptionName) : Except UsageError (Option String) :=
  match gathered.options.filter fun entry => entry.1 = option with
  | [] => .ok none
  | [entry] => .ok (some entry.2)
  | _ => .error (.repeatedOption option.long)

end Gathered

def optionOf? (allowed : List OptionName) : Word → Option (OptionName × Option String)
  | .long name value =>
      (allowed.find? fun option => option.long == name).map fun option => (option, value)
  | .short letter value =>
      (allowed.find? fun option => option.short == letter).map fun option => (option, value)
  | _ => none

def gather (allowed : List OptionName) : List String → Except UsageError Gathered
  | [] => .ok ⟨[], []⟩
  | text :: rest =>
      match Word.ofText text with
      | .marker => .ok ⟨[], rest⟩
      | .plain => (gather allowed rest).map fun gathered => gathered.addPath text
      | word =>
          match optionOf? allowed word with
          | none => .error (.unknownOption text)
          | some (option, some value) =>
              (gather allowed rest).map fun gathered => gathered.addOption option value
          | some (option, none) =>
              match rest with
              | [] => .error (.missingValue option.long)
              | value :: rest =>
                  if Word.ofText value = .plain then
                    (gather allowed rest).map fun gathered => gathered.addOption option value
                  else .error (.missingValue option.long)

def asksFor (words texts : List String) : Bool :=
  (texts.takeWhile (· != "--")).any words.contains

def helpWords : List String := ["--help", "-h"]

def versionWords : List String := ["--version", "-V"]

def formatOf : Option String → Except UsageError Format
  | none => .ok .diagnostic
  | some text =>
      match Format.parse? text with
      | some format => .ok format
      | none => .error (.unknownFormat text)

def parseCheck (texts : List String) : Except UsageError Command := do
  let gathered ← gather [.format, .config] texts
  let format ← formatOf (← gathered.value .format)
  return .check format (← gathered.value .config) gathered.paths

def parseLsp (texts : List String) : Except UsageError Command := do
  let gathered ← gather [.config] texts
  match gathered.paths with
  | [] => return .lsp (← gathered.value .config)
  | path :: _ => .error (.unexpectedWord path)

/-- The command that the words after the program's name give. -/
def parse (texts : List String) : Except UsageError Command :=
  match texts with
  | [] => .ok (.help .program)
  | "check" :: rest => if asksFor helpWords rest then .ok (.help .check) else parseCheck rest
  | "lsp" :: rest => if asksFor helpWords rest then .ok (.help .lsp) else parseLsp rest
  | first :: _ =>
      if asksFor helpWords texts then .ok (.help .program)
      else if asksFor versionWords texts then .ok .version
      else .error (.unknownCommand first)

end ReleaseAudit.CommandLine
