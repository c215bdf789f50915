import ReleaseAudit.Json.Basic

/-!
# Reading JSON

Every reader takes the characters that are left and returns what it read with
the characters after it. `steps` bounds the work; the number of characters is
always enough.
-/

namespace ReleaseAudit.Json

set_option autoImplicit false

def isGap (character : Char) : Bool :=
  character == ' ' || character == '\t' || character == '\n' || character == '\r'

def skipGap (characters : List Char) : List Char :=
  characters.dropWhile isGap

def hexValue? (character : Char) : Option Nat :=
  if character.isDigit then some (character.toNat - '0'.toNat)
  else if 'a' ≤ character && character ≤ 'f' then some (character.toNat - 'a'.toNat + 10)
  else if 'A' ≤ character && character ≤ 'F' then some (character.toNat - 'A'.toNat + 10)
  else none

def readUnit? : List Char → Option (Nat × List Char)
  | first :: second :: third :: fourth :: rest => do
      let unit ← [first, second, third, fourth].foldlM
        (fun code digit => (hexValue? digit).map (16 * code + ·)) 0
      some (unit, rest)
  | _ => none

/-- A character written as one UTF-16 unit, or as two when it needs them. -/
def readUnicode? (characters : List Char) : Option (Char × List Char) := do
  let (unit, rest) ← readUnit? characters
  if unit < 0xd800 || 0xdfff < unit then some (Char.ofNat unit, rest)
  else if 0xdc00 ≤ unit then none
  else
    match rest with
    | '\\' :: 'u' :: rest =>
        let (low, rest) ← readUnit? rest
        if 0xdc00 ≤ low && low ≤ 0xdfff then
          some (Char.ofNat (0x10000 + (unit - 0xd800) * 0x400 + (low - 0xdc00)), rest)
        else none
    | _ => none

def readEscape? : List Char → Option (Char × List Char)
  | '"' :: rest => some ('"', rest)
  | '\\' :: rest => some ('\\', rest)
  | '/' :: rest => some ('/', rest)
  | 'b' :: rest => some ('\x08', rest)
  | 'f' :: rest => some ('\x0c', rest)
  | 'n' :: rest => some ('\n', rest)
  | 'r' :: rest => some ('\r', rest)
  | 't' :: rest => some ('\t', rest)
  | 'u' :: rest => readUnicode? rest
  | _ => none

def readString? : (steps : Nat) → List Char → Option (List Char × List Char)
  | 0, _ => none
  | _ + 1, [] => none
  | steps + 1, character :: rest =>
      if character = '"' then some ([], rest)
      else if character = '\\' then do
        let (escaped, rest) ← readEscape? rest
        let (text, rest) ← readString? steps rest
        some (escaped :: text, rest)
      else if character.toNat < 0x20 then none
      else do
        let (text, rest) ← readString? steps rest
        some (character :: text, rest)

def readDigits? (characters : List Char) : Option (List Char × List Char) :=
  let digits := characters.takeWhile Char.isDigit
  if digits.isEmpty then none else some (digits, characters.dropWhile Char.isDigit)

/-- Digits of an integer: a zero stands alone. -/
def readWhole? (characters : List Char) : Option (List Char × List Char) :=
  match characters with
  | '0' :: rest => some (['0'], rest)
  | characters => readDigits? characters

def readFraction? : List Char → Option (List Char × List Char)
  | '.' :: rest => (readDigits? rest).map fun read => ('.' :: read.1, read.2)
  | characters => some ([], characters)

def readExponent? : List Char → Option (List Char × List Char)
  | mark :: rest =>
      if mark = 'e' || mark = 'E' then
        let (sign, rest) :=
          match rest with
          | '+' :: rest => (['+'], rest)
          | '-' :: rest => (['-'], rest)
          | rest => ([], rest)
        (readDigits? rest).map fun read => (mark :: sign ++ read.1, read.2)
      else some ([], mark :: rest)
  | [] => some ([], [])

def naturalOf (digits : List Char) : Nat :=
  digits.foldl (fun value digit => 10 * value + (digit.toNat - '0'.toNat)) 0

def readNumber? (characters : List Char) : Option (Json × List Char) := do
  let (negative, rest) :=
    match characters with
    | '-' :: rest => (true, rest)
    | rest => (false, rest)
  let (whole, rest) ← readWhole? rest
  let (fraction, rest) ← readFraction? rest
  let (exponent, rest) ← readExponent? rest
  if fraction.isEmpty && exponent.isEmpty then
    let value : Int := naturalOf whole
    some (number (if negative then -value else value), rest)
  else
    let sign := if negative then ['-'] else []
    some (decimal (String.ofList (sign ++ whole ++ fraction ++ exponent)), rest)

def readWord? (word : String) (value : Json) (characters : List Char) :
    Option (Json × List Char) :=
  if word.toList.isPrefixOf characters then some (value, characters.drop word.length) else none

mutual

def readValue? : (steps : Nat) → List Char → Option (Json × List Char)
  | 0, _ => none
  | steps + 1, characters =>
      match skipGap characters with
      | '"' :: rest => do
          let (text, rest) ← readString? (rest.length + 1) rest
          some (string (String.ofList text), rest)
      | '[' :: rest =>
          match skipGap rest with
          | ']' :: rest => some (array [], rest)
          | rest => do
              let (elements, rest) ← readElements? steps rest
              some (array elements, rest)
      | '\x7b' :: rest =>
          match skipGap rest with
          | '\x7d' :: rest => some (object [], rest)
          | rest => do
              let (entries, rest) ← readEntries? steps rest
              some (object entries, rest)
      | 'n' :: rest => readWord? "null" null ('n' :: rest)
      | 't' :: rest => readWord? "true" (boolean true) ('t' :: rest)
      | 'f' :: rest => readWord? "false" (boolean false) ('f' :: rest)
      | rest => readNumber? rest

def readElements? : (steps : Nat) → List Char → Option (List Json × List Char)
  | 0, _ => none
  | steps + 1, characters => do
      let (element, rest) ← readValue? steps characters
      match skipGap rest with
      | ',' :: rest => do
          let (elements, rest) ← readElements? steps rest
          some (element :: elements, rest)
      | ']' :: rest => some ([element], rest)
      | _ => none

def readEntries? : (steps : Nat) → List Char → Option (List (String × Json) × List Char)
  | 0, _ => none
  | steps + 1, characters =>
      match skipGap characters with
      | '"' :: rest => do
          let (key, rest) ← readString? (rest.length + 1) rest
          match skipGap rest with
          | ':' :: rest => do
              let (value, rest) ← readValue? steps rest
              match skipGap rest with
              | ',' :: rest => do
                  let (entries, rest) ← readEntries? steps rest
                  some ((String.ofList key, value) :: entries, rest)
              | '\x7d' :: rest => some ([(String.ofList key, value)], rest)
              | _ => none
          | _ => none
      | _ => none

end

/-- Reads one value that takes up the whole text. -/
def parse? (text : String) : Option Json :=
  match readValue? (text.length + 1) text.toList with
  | some (value, rest) => if (skipGap rest).isEmpty then some value else none
  | none => none

end ReleaseAudit.Json
