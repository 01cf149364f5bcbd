import TagScript.Text.Cut
import TagScript.Table

/-! Files as the runner needs them, and files that are kept in a table. -/

namespace TagScript.Runner

inductive FileError where
  | notFound
  | alreadyExists
  | isDirectory
  | notDirectory
  | denied
  | notText
  | other (message : String)
  deriving DecidableEq, Repr

def FileError.message : FileError → String
  | .notFound => "No such file or directory (os error 2)"
  | .alreadyExists => "File exists (os error 17)"
  | .isDirectory => "Is a directory (os error 21)"
  | .notDirectory => "Not a directory (os error 20)"
  | .denied => "Permission denied (os error 13)"
  | .notText => "stream did not contain valid UTF-8"
  | .other message => message

structure FileAccess (m : Type → Type) where
  pathExists : String → m Bool
  read : String → m (Except FileError String)
  write : String → String → m (Except FileError Unit)

def pathNames (path : String) : List String :=
  (Text.cutAllText '/' path).filter fun part => part != "" && part != "."

def fileStem (path : String) : String :=
  match (pathNames path).getLast? with
  | none => "script"
  | some name =>
    if name = ".." then "script"
    else
      let front := (Text.cutAll '.' name.toList).dropLast
      let stem := String.intercalate "." (front.map String.ofList)
      if stem.isEmpty then name else stem

/-- Files by their places. Directories are there as far as files are in them. -/
structure FileTable where
  files : Table String

namespace FileTable

abbrev Place := List String

def rootName : String := "/"

def startOf (path : String) : Place :=
  if Text.startsWith path "/" then [rootName] else []

def keyOf (place : Place) : String := String.intercalate "/" place

def placeAfter (parts : List String) (place : Place) : Place :=
  parts.foldl
    (fun place part =>
      if part = "" || part = "." then place
      else if part = ".." then place.dropLast
      else place ++ [part])
    place

def placeOf (path : String) : Place :=
  placeAfter (Text.cutAllText '/' path) (startOf path)

def ofPairs (pairs : List (String × String)) : FileTable :=
  ⟨pairs.map fun (path, content) => (keyOf (placeOf path), content)⟩

def isFile (place : Place) (table : FileTable) : Bool := table.files.holds (keyOf place)

def isDirectory (place : Place) (table : FileTable) : Bool :=
  place.isEmpty || place == [rootName]
    || table.files.any fun (file, _) => Text.startsWith file (keyOf place ++ "/")

def follow (table : FileTable) (place : Place) : List String → Except FileError Place
  | [] => .ok place
  | part :: rest =>
    if table.isFile place then .error .notDirectory
    else if table.isDirectory place then table.follow (placeAfter [part] place) rest
    else .error .notFound

def find (path : String) (table : FileTable) : Except FileError Place :=
  table.follow (startOf path) (Text.cutAllText '/' path)

def pathExists (path : String) (table : FileTable) : Bool :=
  match table.find path with
  | .ok place => table.isFile place || table.isDirectory place
  | .error _ => false

def read (path : String) (table : FileTable) : Except FileError String := do
  let place ← table.find path
  if table.isDirectory place then throw .isDirectory
  else match table.files.get? (keyOf place) with
    | some content => return content
    | none => throw .notFound

def canMakeWay (path : String) (table : FileTable) : Except FileError Unit :=
  let names := (pathNames path).dropLast
  let passesFile := (List.range names.length).any fun count =>
    table.isFile (placeAfter (names.take count) (startOf path))
  if passesFile then .error .notDirectory
  else if table.isFile (placeAfter names (startOf path)) then .error .alreadyExists
  else .ok ()

def write (path content : String) (table : FileTable) : Except FileError Unit × FileTable :=
  match table.canMakeWay path with
  | .error error => (.error error, table)
  | .ok () =>
    if Text.endsWith path "/" then (.error .isDirectory, table)
    else (.ok (), ⟨table.files.set (keyOf (placeOf path)) content⟩)

def access : FileAccess (StateM FileTable) where
  pathExists := fun path => do return (← get).pathExists path
  read := fun path => do return (← get).read path
  write := fun path content => modifyGet (write path content)

end FileTable

end TagScript.Runner
