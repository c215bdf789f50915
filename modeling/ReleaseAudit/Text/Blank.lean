/-!
# White space and simple cuts of a text

White space is the Unicode property of that name. The cuts below work on the
list of characters, so that each of them is a plain statement about lists.
-/

namespace ReleaseAudit.Text

set_option autoImplicit false

/-- The code points of the Unicode property `White_Space`, as closed ranges. -/
def blankRanges : List (Nat × Nat) :=
  [(0x09, 0x0d), (0x20, 0x20), (0x85, 0x85), (0xa0, 0xa0), (0x1680, 0x1680),
    (0x2000, 0x200a), (0x2028, 0x2029), (0x202f, 0x202f), (0x205f, 0x205f),
    (0x3000, 0x3000)]

def isBlank (character : Char) : Bool :=
  blankRanges.any fun range =>
    range.1 ≤ character.toNat && character.toNat ≤ range.2

def dropEndWhile (test : Char → Bool) (characters : List Char) : List Char :=
  (characters.reverse.dropWhile test).reverse

def trimChars (characters : List Char) : List Char :=
  dropEndWhile isBlank (characters.dropWhile isBlank)

def trimStart (text : String) : String :=
  String.ofList (text.toList.dropWhile isBlank)

def trimEnd (text : String) : String :=
  String.ofList (dropEndWhile isBlank text.toList)

def trim (text : String) : String :=
  String.ofList (trimChars text.toList)

def dropEndMarks (mark : Char) (text : String) : String :=
  String.ofList (dropEndWhile (· == mark) text.toList)

def afterHead? : (head characters : List Char) → Option (List Char)
  | [], characters => some characters
  | _ :: _, [] => none
  | mark :: head, character :: rest =>
      if mark = character then afterHead? head rest else none

def dropHead? (head text : String) : Option String :=
  (afterHead? head.toList text.toList).map String.ofList

def startsWith (head text : String) : Bool :=
  (afterHead? head.toList text.toList).isSome

def endsWith (tail text : String) : Bool :=
  (afterHead? tail.toList.reverse text.toList.reverse).isSome

def cutFirst? (mark : Char) : List Char → Option (List Char × List Char)
  | [] => none
  | character :: rest =>
      if character = mark then some ([], rest)
      else (cutFirst? mark rest).map fun parts => (character :: parts.1, parts.2)

def splitFirst? (mark : Char) (text : String) : Option (String × String) :=
  (cutFirst? mark text.toList).map fun parts =>
    (String.ofList parts.1, String.ofList parts.2)

def splitLast? (mark : Char) (text : String) : Option (String × String) :=
  (cutFirst? mark text.toList.reverse).map fun parts =>
    (String.ofList parts.2.reverse, String.ofList parts.1.reverse)

/-- The pieces between the copies of `mark`; a text without `mark` is one piece. -/
def pieces (mark : Char) : List Char → List (List Char)
  | [] => [[]]
  | character :: rest =>
      if character = mark then [] :: pieces mark rest
      else
        match pieces mark rest with
        | [] => [[character]]
        | piece :: more => (character :: piece) :: more

def split (mark : Char) (text : String) : List String :=
  (pieces mark text.toList).map String.ofList

theorem pieces_ne_nil (mark : Char) (characters : List Char) :
    pieces mark characters ≠ [] := by
  cases characters with
  | nil => simp [pieces]
  | cons character rest =>
      simp only [pieces]
      split
      · simp
      · split <;> simp

end ReleaseAudit.Text
