import ReleaseAudit.Text.Blank

/-!
# Paths

Two paths are the same when their components are: repeated and trailing
slashes and inner dots count for nothing, while a leading dot is kept and a
double dot is not worked out.
-/

namespace ReleaseAudit.Files

set_option autoImplicit false

inductive Component where
  | root
  | here
  | up
  | name (spelling : String)
deriving DecidableEq, Repr

namespace Component

def rank : Component → Nat
  | root => 0
  | here => 1
  | up => 2
  | name _ => 3

/-- The root before dots, dots before names, names by code point. -/
def precedes (left right : Component) : Bool :=
  match left, right with
  | name left, name right => decide (left < right)
  | left, right => left.rank < right.rank

def ofSegment (segment : String) : Component :=
  if segment == ".." then up else name segment

end Component

namespace Path

/-- A leading dot is a component; other dots and empty segments are none. -/
def ofSegments (segments : List String) : List Component :=
  let rest := fun (segments : List String) =>
    (segments.filter fun segment => !segment.isEmpty && segment != ".").map Component.ofSegment
  match segments with
  | "." :: more => .here :: rest more
  | segments => rest segments

def components (path : String) : List Component :=
  if Text.startsWith "/" path then
    .root :: ofSegments ("" :: Text.split '/' path)
  else ofSegments (Text.split '/' path)

def same (left right : String) : Bool :=
  components left == components right

def precedesParts : List Component → List Component → Bool
  | [], [] => false
  | [], _ :: _ => true
  | _ :: _, [] => false
  | left :: lefts, right :: rights =>
      if left = right then precedesParts lefts rights else left.precedes right

def precedes (left right : String) : Bool :=
  precedesParts (components left) (components right)

def insertSorted (path : String) : List String → List String
  | [] => [path]
  | head :: rest =>
      if precedes path head then path :: head :: rest else head :: insertSorted path rest

def sort (paths : List String) : List String :=
  paths.foldl (fun sorted path => insertSorted path sorted) []

def fileName? (path : String) : Option String :=
  match (components path).getLast? with
  | some (.name spelling) => some spelling
  | _ => none

/-- A file name without its last extension; a leading dot starts no extension. -/
def stem (fileName : String) : String :=
  match Text.splitLast? '.' fileName with
  | some (before, _) => if before.isEmpty then fileName else before
  | none => fileName

def beforeName (path fileName : String) : String :=
  let plain := Text.dropEndWhile (· == '/') path.toList
  let shorter := dropDots plain.length plain
  String.ofList (shorter.take (shorter.length - fileName.toList.length))
where
  dropDots : Nat → List Char → List Char
    | 0, characters => characters
    | steps + 1, characters =>
        match characters.reverse with
        | '.' :: '/' :: before =>
            dropDots steps (Text.dropEndWhile (· == '/') before.reverse)
        | _ => characters

def withExtension (path extension : String) : String :=
  match fileName? path with
  | none => path
  | some fileName => beforeName path fileName ++ stem fileName ++ "." ++ extension

end Path

end ReleaseAudit.Files
