import ReleaseAudit.CommandLine.Run
import ReleaseAudit.Server.Wire
import ReleaseAudit.Source.Exchange

/-!
# The command line program

Reads the files that the arguments name, runs the command and prints what it
gives. Syntax trees come from the file that the environment names, one object
with a text and its tree per line.
-/

namespace ReleaseAudit.Main

set_option autoImplicit false

open CommandLine (Action Command)
open Files (Folder)
open Rules (Ruleset)
open Server (Phase)
open Source (Parser)

/-- Environment variable that names the file of trees. -/
def treesVariable : String := "RELEASE_AUDIT_TREES"

def readParser : IO Parser := do
  match ← IO.getEnv treesVariable with
  | none => return Parser.ofTrees []
  | some path =>
      let content ← IO.FS.readFile path
      let trees := (Text.lines content).filterMap fun line =>
        (Json.parse? line).bind Parser.readTree?
      return Parser.ofTrees trees

def pathsOf : Command → List String
  | .check _ settings paths => settings.toList ++ paths
  | .lsp settings => settings.toList
  | .help _ | .version => []

def readPath (path : String) : IO (List (String × String) × List String) := do
  let place := (← IO.currentDir) / path
  if ← place.isDir then
    let below := (← place.walkDir).toList
    let spell := fun (entry : String) => path ++ entry.drop place.toString.length
    let mut files := []
    let mut directories := [path]
    for entry in below do
      if ← entry.isDir then directories := spell entry.toString :: directories
      else if Text.endsWith ".cs" entry.toString then
        files := (spell entry.toString, ← IO.FS.readFile entry) :: files
    return (files, directories)
  else if ← place.pathExists then return ([(path, ← IO.FS.readFile place)], [])
  else return ([], [])

def readFolder (texts : List String) : IO Folder := do
  match CommandLine.parse texts with
  | .error _ => return Folder.ofPaths [] []
  | .ok command =>
      let found ← (pathsOf command).mapM readPath
      return Folder.ofPaths (found.flatMap Prod.fst) (found.flatMap Prod.snd)

partial def readHeaders (input : IO.FS.Stream) (length : Option Nat) : IO (Option Nat) := do
  let line ← input.getLine
  if line.isEmpty then return none
  else if Server.Frame.isHeaderEnd line then return length
  else readHeaders input ((Server.Frame.contentLength? line).or length)

partial def readContent (input : IO.FS.Stream) (length : Nat) (read : ByteArray) :
    IO ByteArray := do
  if length ≤ read.size then return read
  let more ← input.read (length - read.size).toUSize
  if more.isEmpty then return read
  readContent input length (read ++ more)

/-- What an audit that never ends looks like from outside. -/
partial def runOn : IO UInt32 :=
  runOn

partial def serve (parser : Parser) (rules : Ruleset) (input output : IO.FS.Stream)
    (phase : Phase) : IO UInt32 := do
  match phase with
  | .ended code => return code.toUInt32
  | .stuck => runOn
  | phase =>
      match ← readHeaders input none with
      | none => return (phase.exitCode?.getD 0).toUInt32
      | some length =>
          let content ← readContent input length ByteArray.empty
          let message := Server.Frame.message ((String.fromUTF8? content).getD "")
          let (next, sent) := phase.receive .ofJson parser rules .byAddress message
          for reply in sent do
            output.putStr (Server.Frame.ofMessage reply.toJson)
          output.flush
          serve parser rules input output next

def run (texts : List String) : IO UInt32 := do
  let parser ← readParser
  match CommandLine.start parser (← readFolder texts) texts with
  | .serve rules => serve parser rules (← IO.getStdin) (← IO.getStdout) .starting
  | .runOn => runOn
  | .finish outcome =>
      IO.print outcome.output
      IO.eprint outcome.errors
      return outcome.exitCode.toUInt32

end ReleaseAudit.Main

def main (texts : List String) : IO UInt32 :=
  ReleaseAudit.Main.run texts
