import ReleaseAudit.Files.Path

/-!
# A folder of files

The files that a run can see, given as a list of relative paths. Folders exist
when they are listed or hold something.
-/

namespace ReleaseAudit.Files

set_option autoImplicit false

inductive ReadError where
  | notFound
  | notADirectory
  | isADirectory
deriving DecidableEq, Repr

namespace ReadError

def message : ReadError → String
  | notFound => "No such file or directory (os error 2)"
  | notADirectory => "Not a directory (os error 20)"
  | isADirectory => "Is a directory (os error 21)"

end ReadError

abbrev Route := List String

structure Folder where
  files : List (Route × String)
  directories : List Route

namespace Folder

def namesOf (path : String) : Route :=
  (Path.components path).filterMap fun component =>
    match component with
    | .name spelling => some spelling
    | _ => none

def ofPaths (files : List (String × String)) (directories : List String) : Folder :=
  ⟨files.map fun file => (namesOf file.1, file.2), directories.map namesOf⟩

def startsAt (route inner : Route) : Bool :=
  route.isPrefixOf inner

def fileAt? (folder : Folder) (route : Route) : Option String :=
  folder.files.lookup route

def isDirectoryAt (folder : Folder) (route : Route) : Bool :=
  route.isEmpty ||
    (folder.files.any fun file => startsAt route file.1 && route.length < file.1.length) ||
    folder.directories.any fun directory => startsAt route directory

/-- Follows components from a folder. A double dot leaves a folder, and a file has nothing
below it. -/
def follow (folder : Folder) : (route : Route) → List Component → Except ReadError Route
  | route, [] => .ok route
  | route, component :: rest =>
      if folder.isDirectoryAt route then
        match component with
        | .root | .here => folder.follow route rest
        | .up => folder.follow route.dropLast rest
        | .name spelling => folder.follow (route ++ [spelling]) rest
      else if (folder.fileAt? route).isSome then .error .notADirectory
      else .error .notFound

/-- Entry that a path leads to. A path that ends in a slash or a dot asks for a folder. -/
def locate (folder : Folder) (path : String) : Except ReadError Route := do
  if path.isEmpty then .error .notFound
  else
    let route ← folder.follow [] (Path.components path)
    if folder.isDirectoryAt route then .ok route
    else if (folder.fileAt? route).isNone then .error .notFound
    else if Text.endsWith "/" path || Text.endsWith "/." path then .error .notADirectory
    else .ok route

def isDirectory (folder : Folder) (path : String) : Bool :=
  match folder.locate path with
  | .ok route => folder.isDirectoryAt route
  | .error _ => false

def isFile (folder : Folder) (path : String) : Bool :=
  match folder.locate path with
  | .ok route => !folder.isDirectoryAt route
  | .error _ => false

def read (folder : Folder) (path : String) : Except ReadError String := do
  let route ← folder.locate path
  if folder.isDirectoryAt route then .error .isADirectory
  else
    match folder.fileAt? route with
    | some text => .ok text
    | none => .error .notFound

def beginnings (route : Route) : List Route :=
  (List.range route.length).map fun count => route.take (count + 1)

def entries (folder : Folder) : List Route :=
  ((folder.files.map Prod.fst ++ folder.directories).flatMap beginnings).eraseDups

/-- How paths found below a directory start: as the directory is spelled, without a leading
dot and the slashes at its end. -/
def lead (path : String) : String :=
  let kept := (Text.split '/' path).filter fun segment => !segment.isEmpty
  let kept :=
    match kept with
    | "." :: rest => rest.dropWhile (· == ".")
    | kept => kept
  String.join (kept.map fun segment => segment ++ "/")

/-- Entries below a directory whose names end in `.cs`, sorted, spelled from the directory. The
empty path stands for the folder itself. -/
def sourcesBelow (folder : Folder) (path : String) : List String :=
  match folder.locate (if path.isEmpty then "." else path) with
  | .error _ => []
  | .ok route =>
      if folder.isDirectoryAt route then
        let below := folder.entries.filter fun entry =>
          startsAt route entry && route.length < entry.length &&
            entry.getLast?.any (Text.endsWith ".cs")
        Path.sort (below.map fun entry =>
          lead path ++ String.intercalate "/" (entry.drop route.length))
      else []

end Folder

end ReleaseAudit.Files
