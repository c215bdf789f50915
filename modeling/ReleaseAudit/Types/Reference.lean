import ReleaseAudit.Text.Blank

/-!
# Written types

A written type is a dotted name with generic arguments and an array mark:
`System.IO.Stream`, `Task<TResult>`, `byte[]`. Tuples and pointers are not
read. Blanks may stand between any two symbols, `@` may precede a name, and a
leading `global::` is skipped.

Reading takes a number of steps as bound; a text of `n` characters never needs
more than `2 * n + 2`.
-/

namespace ReleaseAudit.Types

set_option autoImplicit false

structure TypeRef where
  name : String
  /-- Generic arguments of the last segment that has any. -/
  args : List TypeRef
  array : Bool
deriving Repr

namespace TypeRef

def isGap (character : Char) : Bool :=
  character == ' ' || character == '\t' || character == '\n' || character == '\x0c' ||
    character == '\r'

def skipGap (characters : List Char) : List Char :=
  characters.dropWhile isGap

def eat? (mark : Char) (characters : List Char) : Option (List Char) :=
  match skipGap characters with
  | character :: rest => if character = mark then some rest else none
  | [] => none

def eatWord? (word : String) (characters : List Char) : Option (List Char) :=
  Text.afterHead? word.toList (skipGap characters)

def isNameChar (character : Char) : Bool :=
  character.isAlphanum || character == '_' || 0x80 ≤ character.toNat

def readName? (characters : List Char) : Option (List Char × List Char) :=
  let start := (Text.afterHead? ['@'] (skipGap characters)).getD (skipGap characters)
  let name := start.takeWhile isNameChar
  match name with
  | [] => none
  | first :: _ => if first.isDigit then none else some (name, start.dropWhile isNameChar)

/-- Reads question marks and brackets after a name. `inside` tells that a bracket is open,
`array` that one has been closed. -/
def readSuffixes? (inside array : Bool) : List Char → Option (Bool × List Char)
  | [] => if inside then none else some (array, [])
  | character :: rest =>
      if inside then
        if character = ']' then readSuffixes? false true rest
        else readSuffixes? true array rest
      else if isGap character || character = '?' then readSuffixes? false array rest
      else if character = '[' then readSuffixes? true array rest
      else some (array, character :: rest)

mutual

def readType? : (steps : Nat) → List Char → Option (TypeRef × List Char)
  | 0, _ => none
  | steps + 1, characters => do
      let start := (eatWord? "global::" characters).getD characters
      let (names, args, rest) ← readSegments? steps start
      let (array, rest) ← readSuffixes? false false rest
      some (⟨String.intercalate "." (names.map String.ofList), args.getD [], array⟩, rest)

/-- Names of the segments, and the arguments of the last segment that has any. -/
def readSegments? : (steps : Nat) → List Char →
    Option (List (List Char) × Option (List TypeRef) × List Char)
  | 0, _ => none
  | steps + 1, characters => do
      let (name, rest) ← readName? characters
      let (args, rest) ←
        match eat? '<' rest with
        | some inner => (readArguments? steps inner).map fun found => (some found.1, found.2)
        | none => some (none, rest)
      match (eatWord? "::" rest).or (eat? '.' rest) with
      | some next => do
          let (names, later, rest) ← readSegments? steps next
          some (name :: names, later.or args, rest)
      | none => some ([name], args, rest)

def readArguments? : (steps : Nat) → List Char → Option (List TypeRef × List Char)
  | 0, _ => none
  | steps + 1, characters => do
      let (first, rest) ← readType? steps characters
      match eat? ',' rest with
      | some next => (readArguments? steps next).map fun found => (first :: found.1, found.2)
      | none => (eat? '>' rest).map fun rest => ([first], rest)

end

/-- Reads a text that holds one written type and nothing else. -/
def parse? (text : String) : Option TypeRef :=
  match readType? (2 * text.toList.length + 2) text.toList with
  | some (written, rest) => if (skipGap rest).isEmpty then some written else none
  | none => none

def spelling : TypeRef → String
  | ⟨name, args, array⟩ =>
      name ++ (if args.isEmpty then "" else "<" ++ ", ".intercalate (spellings args) ++ ">") ++
        (if array then "[]" else "")
where
  spellings : List TypeRef → List String
    | [] => []
    | written :: rest => spelling written :: spellings rest

def isImplicit (written : TypeRef) : Bool :=
  written.name == "var" && written.args.isEmpty && !written.array

def arity (written : TypeRef) : Nat :=
  written.args.length

def splitHead? (written : TypeRef) : Option (String × String) :=
  Text.splitFirst? '.' written.name

end TypeRef

def keywordTypes : List (String × String) :=
  [("object", "System.Object"), ("string", "System.String"), ("bool", "System.Boolean"),
    ("byte", "System.Byte"), ("sbyte", "System.SByte"), ("char", "System.Char"),
    ("short", "System.Int16"), ("ushort", "System.UInt16"), ("int", "System.Int32"),
    ("uint", "System.UInt32"), ("long", "System.Int64"), ("ulong", "System.UInt64"),
    ("float", "System.Single"), ("double", "System.Double"), ("decimal", "System.Decimal"),
    ("void", "System.Void")]

def keywordType? (name : String) : Option String :=
  keywordTypes.lookup name

end ReleaseAudit.Types
