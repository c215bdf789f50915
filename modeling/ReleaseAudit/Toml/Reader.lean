import ReleaseAudit.Text.Blank
import ReleaseAudit.Toml.Value

/-!
# Reading TOML

Every reader takes the characters that are left and returns what it read with
the characters after it. `steps` bounds the work; the number of characters is
always enough.
-/

namespace ReleaseAudit.Toml

set_option autoImplicit false

def isSpace (character : Char) : Bool :=
  character == ' ' || character == '\t'

def skipSpace (characters : List Char) : List Char :=
  characters.dropWhile isSpace

def isPlain (character : Char) : Bool :=
  character == '\t' || (0x20 ≤ character.toNat && character.toNat != 0x7f)

def newline? : List Char → Option (List Char)
  | '\n' :: rest => some rest
  | '\r' :: '\n' :: rest => some rest
  | _ => none

def skipComment (characters : List Char) : List Char :=
  match characters with
  | '#' :: rest => rest.dropWhile isPlain
  | _ => characters

def endOfLine? (characters : List Char) : Option (List Char) :=
  match skipComment (skipSpace characters) with
  | [] => some []
  | rest => newline? rest

def skipFiller : (steps : Nat) → List Char → Option (List Char)
  | 0, _ => none
  | steps + 1, characters =>
      let rest := skipSpace characters
      match rest with
      | '#' :: _ =>
          match newline? (skipComment rest) with
          | some next => skipFiller steps next
          | none => none
      | _ =>
          match newline? rest with
          | some next => skipFiller steps next
          | none => some rest

def hexDigit? (character : Char) : Option Nat :=
  if character.isDigit then some (character.toNat - '0'.toNat)
  else if 'a' ≤ character && character ≤ 'f' then some (character.toNat - 'a'.toNat + 10)
  else if 'A' ≤ character && character ≤ 'F' then some (character.toNat - 'A'.toNat + 10)
  else none

def scalar? (digits : List Char) : Option Char := do
  let code ← digits.foldlM (fun code digit => (hexDigit? digit).map (16 * code + ·)) 0
  if code < 0xd800 || (0xdfff < code && code < 0x110000) then some (Char.ofNat code) else none

def readEscape? : List Char → Option (Char × List Char)
  | 'b' :: rest => some ('\x08', rest)
  | 't' :: rest => some ('\t', rest)
  | 'n' :: rest => some ('\n', rest)
  | 'f' :: rest => some ('\x0c', rest)
  | 'r' :: rest => some ('\r', rest)
  | '"' :: rest => some ('"', rest)
  | '\\' :: rest => some ('\\', rest)
  | 'u' :: rest =>
      if rest.length < 4 then none
      else (scalar? (rest.take 4)).map fun character => (character, rest.drop 4)
  | 'U' :: rest =>
      if rest.length < 8 then none
      else (scalar? (rest.take 8)).map fun character => (character, rest.drop 8)
  | _ => none

def readBasic? : (steps : Nat) → List Char → Option (List Char × List Char)
  | 0, _ => none
  | _ + 1, [] => none
  | steps + 1, character :: rest =>
      if character = '"' then some ([], rest)
      else if character = '\\' then do
        let (escaped, rest) ← readEscape? rest
        let (text, rest) ← readBasic? steps rest
        some (escaped :: text, rest)
      else if isPlain character then do
        let (text, rest) ← readBasic? steps rest
        some (character :: text, rest)
      else none

def readLiteral? (characters : List Char) : Option (List Char × List Char) :=
  let inside := fun character => isPlain character && character != '\''
  match characters.dropWhile inside with
  | '\'' :: rest => some (characters.takeWhile inside, rest)
  | _ => none

/-- A run of quotes inside a text of several lines: less than three are text, three close it,
and up to two more before those three are text. -/
def closingRun? (quote : Char) (characters : List Char) : Option (Bool × List Char × List Char) :=
  let run := characters.takeWhile (· == quote)
  let rest := characters.dropWhile (· == quote)
  if run.length < 3 then some (false, run, rest)
  else if run.length < 6 then some (true, run.drop 3, rest)
  else none

def skipContinuation : (steps : Nat) → List Char → List Char
  | 0, characters => characters
  | steps + 1, characters =>
      let rest := skipSpace characters
      match newline? rest with
      | some next => skipContinuation steps next
      | none => rest

/-- A text of several lines, after its opening quotes. Backslashes escape unless the quote is
a single one; a line end counts as one line feed. -/
def readLong? (quote : Char) : (steps : Nat) → List Char → Option (List Char × List Char)
  | 0, _ => none
  | _ + 1, [] => none
  | steps + 1, character :: rest =>
      if character = quote then
        match closingRun? quote (character :: rest) with
        | none => none
        | some (true, text, rest) => some (text, rest)
        | some (false, run, rest) => do
            let (text, rest) ← readLong? quote steps rest
            some (run ++ text, rest)
      else if character = '\\' && quote = '"' then
        match newline? (skipSpace rest) with
        | some next => readLong? quote steps (skipContinuation next.length next)
        | none => do
            let (escaped, rest) ← readEscape? rest
            let (text, rest) ← readLong? quote steps rest
            some (escaped :: text, rest)
      else
        match newline? (character :: rest) with
        | some next => do
            let (text, rest) ← readLong? quote steps next
            some ('\n' :: text, rest)
        | none =>
            if isPlain character then do
              let (text, rest) ← readLong? quote steps rest
              some (character :: text, rest)
            else none

def dropFirstNewline (characters : List Char) : List Char :=
  (newline? characters).getD characters

def readString? (characters : List Char) : Option (String × List Char) :=
  let found :=
    match characters with
    | '"' :: '"' :: '"' :: rest => readLong? '"' (rest.length + 1) (dropFirstNewline rest)
    | '\'' :: '\'' :: '\'' :: rest => readLong? '\'' (rest.length + 1) (dropFirstNewline rest)
    | '"' :: rest => readBasic? (rest.length + 1) rest
    | '\'' :: rest => readLiteral? rest
    | _ => none
  found.map fun read => (String.ofList read.1, read.2)

def isBareKey (character : Char) : Bool :=
  character.isAlphanum || character == '_' || character == '-'

def readSimpleKey? (characters : List Char) : Option (String × List Char) :=
  match characters with
  | '"' :: rest => (readBasic? (rest.length + 1) rest).map fun read =>
      (String.ofList read.1, read.2)
  | '\'' :: rest => (readLiteral? rest).map fun read => (String.ofList read.1, read.2)
  | _ =>
      let name := characters.takeWhile isBareKey
      if name.isEmpty then none
      else some (String.ofList name, characters.dropWhile isBareKey)

/-- A key with the keys before its last dot. -/
def readKey? : (steps : Nat) → List Char → Option ((List String × String) × List Char)
  | 0, _ => none
  | steps + 1, characters => do
      let (key, rest) ← readSimpleKey? characters
      match skipSpace rest with
      | '.' :: next => do
          let ((path, last), rest) ← readKey? steps (skipSpace next)
          some ((key :: path, last), rest)
      | _ => some (([], key), rest)

def readDigits? (isDigit : Char → Bool) (characters : List Char) :
    Option (List Char × List Char) :=
  let inside := fun character => isDigit character || character == '_'
  let run := characters.takeWhile inside
  let groups := Text.pieces '_' run
  if groups.any List.isEmpty then none
  else some (run.filter (· != '_'), characters.dropWhile inside)

def digitsValue (base : Nat) (digits : List Char) : Nat :=
  digits.foldl (fun value digit => base * value + (hexDigit? digit).getD 0) 0

def fitsInteger (value : Int) : Bool :=
  -9223372036854775808 ≤ value && value ≤ 9223372036854775807

def readBased? (base : Nat) (isDigit : Char → Bool) (characters : List Char) :
    Option (Int × List Char) := do
  let (digits, rest) ← readDigits? isDigit characters
  let value : Int := digitsValue base digits
  if fitsInteger value then some (value, rest) else none

def readDecimal? (negative : Bool) (characters : List Char) : Option (Int × List Char) :=
  match characters with
  | '0' :: rest => some (0, rest)
  | _ => do
      let (digits, rest) ← readDigits? Char.isDigit characters
      let magnitude : Int := digitsValue 10 digits
      let value := if negative then -magnitude else magnitude
      if fitsInteger value then some (value, rest) else none

def readInteger? (characters : List Char) : Option (Int × List Char) :=
  match characters with
  | '0' :: 'x' :: rest => readBased? 16 (fun digit => (hexDigit? digit).isSome) rest
  | '0' :: 'o' :: rest => readBased? 8 (fun digit => '0' ≤ digit && digit ≤ '7') rest
  | '0' :: 'b' :: rest => readBased? 2 (fun digit => digit == '0' || digit == '1') rest
  | '+' :: rest => readDecimal? false rest
  | '-' :: rest => readDecimal? true rest
  | _ => readDecimal? false characters

mutual

def readValue? : (steps : Nat) → List Char → Option (Value × List Char)
  | 0, _ => none
  | steps + 1, characters =>
      match characters with
      | '[' :: rest => (readElements? steps rest).map fun read => (.array read.1, read.2)
      | '\x7b' :: rest =>
          match skipSpace rest with
          | '\x7d' :: rest => some (.table [], rest)
          | start => do
              let (entries, rest) ← readPairs? steps [] start
              some ((Item.table .header entries).toValue, rest)
      | '"' :: _ | '\'' :: _ => (readString? characters).map fun read => (.string read.1, read.2)
      | 't' :: 'r' :: 'u' :: 'e' :: rest => some (.boolean true, rest)
      | 'f' :: 'a' :: 'l' :: 's' :: 'e' :: rest => some (.boolean false, rest)
      | _ => (readInteger? characters).map fun read => (.integer read.1, read.2)

def readElements? : (steps : Nat) → List Char → Option (List Value × List Char)
  | 0, _ => none
  | steps + 1, characters => do
      match ← skipFiller (characters.length + 1) characters with
      | ']' :: rest => some ([], rest)
      | start => do
          let (value, rest) ← readValue? steps start
          match ← skipFiller (rest.length + 1) rest with
          | ',' :: next => do
              let (values, rest) ← readElements? steps next
              some (value :: values, rest)
          | ']' :: rest => some ([value], rest)
          | _ => none

def readPairs? : (steps : Nat) → Entries → List Char → Option (Entries × List Char)
  | 0, _, _ => none
  | steps + 1, entries, characters => do
      let ((path, key), rest) ← readKey? (characters.length + 1) characters
      match skipSpace rest with
      | '=' :: next => do
          let (value, rest) ← readValue? steps (skipSpace next)
          let entries ← entries.assign? path key value
          match skipSpace rest with
          | ',' :: next => readPairs? steps entries (skipSpace next)
          | '\x7d' :: rest => some (entries, rest)
          | _ => none
      | _ => none

end

structure Reading where
  entries : Entries
  header : List String

def readHeader? (close : List Char) (characters : List Char) :
    Option ((List String × String) × List Char) := do
  let (key, rest) ← readKey? (characters.length + 1) (skipSpace characters)
  let rest ← Text.afterHead? close (skipSpace rest)
  some (key, rest)

def readStatement? (reading : Reading) (characters : List Char) : Option (Reading × List Char) :=
  match characters with
  | '[' :: '[' :: rest => do
      let ((path, key), rest) ← readHeader? [']', ']'] rest
      let entries ← reading.entries.openElement? path key
      some (⟨entries, path ++ [key]⟩, rest)
  | '[' :: rest => do
      let ((path, key), rest) ← readHeader? [']'] rest
      let entries ← reading.entries.openTable? path key
      some (⟨entries, path ++ [key]⟩, rest)
  | _ => do
      let ((path, key), rest) ← readKey? (characters.length + 1) characters
      match skipSpace rest with
      | '=' :: next => do
          let (value, rest) ← readValue? (next.length + 1) (skipSpace next)
          let entries ← reading.entries.assignUnder? reading.header path key value
          some (⟨entries, reading.header⟩, rest)
      | _ => none

def readStatements? : (steps : Nat) → Reading → List Char → Option Reading
  | 0, _, _ => none
  | steps + 1, reading, characters =>
      match skipSpace characters with
      | [] => some reading
      | start =>
          match endOfLine? start with
          | some next => readStatements? steps reading next
          | none => do
              let (reading, rest) ← readStatement? reading start
              let next ← endOfLine? rest
              readStatements? steps reading next

def dropByteOrderMark (characters : List Char) : List Char :=
  match characters with
  | '\ufeff' :: rest => rest
  | _ => characters

def parse? (text : String) : Option (List (String × Value)) := do
  let characters := dropByteOrderMark text.toList
  let reading ← readStatements? (characters.length + 1) ⟨[], []⟩ characters
  some (Item.toValue.toValues reading.entries)

end ReleaseAudit.Toml
