/-!
# JSON values and their text

A number is an integer, or a decimal that is kept as it is written. An object is
written with its keys in ascending order.
-/

namespace ReleaseAudit

set_option autoImplicit false

inductive Json where
  | null
  | boolean (value : Bool)
  | number (value : Int)
  | decimal (written : String)
  | string (text : String)
  | array (elements : List Json)
  | object (entries : List (String × Json))
deriving Inhabited, Repr

namespace Json

/-- The value under a key of an object; the last one when the key is repeated. -/
def get? (json : Json) (key : String) : Option Json :=
  match json with
  | object entries => entries.reverse.lookup key
  | _ => none

def text? : Json → Option String
  | string text => some text
  | _ => none

def hexDigit (value : Nat) : Char :=
  (Nat.toDigits 16 (value % 16)).headD '0'

def escape (character : Char) : List Char :=
  if character = '"' then ['\\', '"']
  else if character = '\\' then ['\\', '\\']
  else if character = '\x08' then ['\\', 'b']
  else if character = '\t' then ['\\', 't']
  else if character = '\n' then ['\\', 'n']
  else if character = '\x0c' then ['\\', 'f']
  else if character = '\r' then ['\\', 'r']
  else if character.toNat < 0x20 then
    ['\\', 'u', '0', '0', hexDigit (character.toNat / 16), hexDigit character.toNat]
  else [character]

def quote (text : String) : String :=
  String.ofList ('"' :: text.toList.flatMap escape ++ ['"'])

def insertEntry (entry : String × String) : List (String × String) → List (String × String)
  | [] => [entry]
  | head :: rest =>
      if entry.1 < head.1 then entry :: head :: rest else head :: insertEntry entry rest

def sortEntries (entries : List (String × String)) : List (String × String) :=
  entries.foldl (fun sorted entry => insertEntry entry sorted) []

/-- How the parts of a value are set apart at some depth. -/
structure Layout where
  lead : Nat → String
  close : Nat → String
  gap : String

namespace Layout

def compact : Layout :=
  ⟨fun _ => "", fun _ => "", ""⟩

def indent (depth : Nat) : String :=
  "\n" ++ String.ofList (List.replicate (2 * depth) ' ')

def pretty : Layout :=
  ⟨indent, indent, " "⟩

def bracket (layout : Layout) (depth : Nat) (opening closing : String) (parts : List String) :
    String :=
  if parts.isEmpty then opening ++ closing
  else
    opening ++ layout.lead (depth + 1) ++
      String.intercalate ("," ++ layout.lead (depth + 1)) parts ++ layout.close depth ++ closing

end Layout

def write (layout : Layout) (depth : Nat) : Json → String
  | null => "null"
  | boolean true => "true"
  | boolean false => "false"
  | number value => toString value
  | decimal written => written
  | string text => quote text
  | array elements => layout.bracket depth "[" "]" (writeAll elements)
  | object entries =>
      layout.bracket depth "\x7b" "\x7d"
        ((sortEntries (writeEntries entries)).map fun entry =>
          quote entry.1 ++ ":" ++ layout.gap ++ entry.2)
where
  writeAll : List Json → List String
    | [] => []
    | json :: rest => write layout (depth + 1) json :: writeAll rest
  writeEntries : List (String × Json) → List (String × String)
    | [] => []
    | (key, json) :: rest => (key, write layout (depth + 1) json) :: writeEntries rest

def compact (json : Json) : String :=
  write Layout.compact 0 json

def pretty (json : Json) : String :=
  write Layout.pretty 0 json

end Json

end ReleaseAudit
