import ReleaseAudit.Text.Blank

/-!
# Lines, slices and positions

A line ends at a line feed, and one carriage return before that line feed
belongs to the ending. A text that ends with a line feed has no empty line
after it. A carriage return elsewhere is an ordinary character.

Offsets count UTF-8 bytes. A slice exists when both ends fall between characters
and within the text. A position counts the line feeds before the offset and, on
the offset's own line, the columns of the characters that start before it. A
column is one per character, or one per UTF-16 unit. Lines and columns have 32
bits and wrap around.
-/

namespace ReleaseAudit.Text

set_option autoImplicit false

def dropCarriageReturn (row : List Char) : List Char :=
  match row.reverse with
  | '\r' :: before => before.reverse
  | _ => row

/-- Turns the pieces between line feeds into lines. -/
def closeRows : List (List Char) → List (List Char)
  | [] => []
  | [last] => if last.isEmpty then [] else [last]
  | row :: next :: more => dropCarriageReturn row :: closeRows (next :: more)

def lineChars (characters : List Char) : List (List Char) :=
  closeRows (pieces '\n' characters)

def lines (text : String) : List String :=
  (lineChars text.toList).map String.ofList

def line? (text : String) (index : Nat) : Option String :=
  (lines text)[index]?

def dropBytes? : (count : Nat) → List Char → Option (List Char)
  | 0, characters => some characters
  | _ + 1, [] => none
  | count + 1, character :: rest =>
      if character.utf8Size ≤ count + 1 then
        dropBytes? (count + 1 - character.utf8Size) rest
      else none

def takeBytes? : (count : Nat) → List Char → Option (List Char)
  | 0, _ => some []
  | _ + 1, [] => none
  | count + 1, character :: rest =>
      if character.utf8Size ≤ count + 1 then
        (takeBytes? (count + 1 - character.utf8Size) rest).map (character :: ·)
      else none

def sliceChars? (start stop : Nat) (characters : List Char) : Option (List Char) :=
  if start ≤ stop then
    (dropBytes? start characters).bind (takeBytes? (stop - start))
  else none

/-- The text between two byte offsets, empty when they do not cut out a slice. -/
def slice (text : String) (start stop : Nat) : String :=
  String.ofList ((sliceChars? start stop text.toList).getD [])

structure Position where
  line : UInt32
  column : UInt32
deriving DecidableEq, Repr

/-- The characters that start before the byte offset. -/
def charsBefore : (offset : Nat) → List Char → List Char
  | _, [] => []
  | offset, character :: rest =>
      if offset = 0 then []
      else character :: charsBefore (offset - character.utf8Size) rest

def Position.advance (width : Char → UInt32) (position : Position) (character : Char) : Position :=
  if character = '\n' then ⟨position.line + 1, 0⟩
  else ⟨position.line, position.column + width character⟩

def unitsUtf16 (character : Char) : UInt32 :=
  if character.toNat < 0x10000 then 1 else 2

def positionWith (width : Char → UInt32) (text : String) (offset : Nat) : Position :=
  (charsBefore offset text.toList).foldl (Position.advance width) ⟨0, 0⟩

def position (text : String) (offset : Nat) : Position :=
  positionWith (fun _ => 1) text offset

def positionUtf16 (text : String) (offset : Nat) : Position :=
  positionWith unitsUtf16 text offset

def row (text : String) (offset : Nat) : Nat :=
  (charsBefore offset text.toList).count '\n'

end ReleaseAudit.Text
