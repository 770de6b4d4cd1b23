import CheckpointedLog.Files.Path
import CheckpointedLog.SortedMap
import CheckpointedLog.Text.Utf8

namespace CheckpointedLog

inductive FileError where
  | notFound
  | alreadyExists
  | notDirectory
  | isDirectory
  | busy
  /-- The content of a file is not UTF-8. -/
  | notText
  /-- A directory has no place to be created in. -/
  | noParent
  | other (message : String)
deriving DecidableEq, Repr

def FileError.message : FileError → String
  | notFound => "No such file or directory (os error 2)"
  | alreadyExists => "File exists (os error 17)"
  | notDirectory => "Not a directory (os error 20)"
  | isDirectory => "Is a directory (os error 21)"
  | busy => "Device or resource busy (os error 16)"
  | notText => "stream did not contain valid UTF-8"
  | noParent => "failed to create whole tree"
  | other message => message

inductive Entry where
  | directory
  | file (content : Bytes)
deriving DecidableEq, Repr

inductive EntryKind where
  | directory
  | file
deriving DecidableEq, Repr

def Entry.kind : Entry → EntryKind
  | directory => .directory
  | file _ => .file

/-- The names that lead from the root to an entry. -/
abbrev Place := List String

/-- Where paths start that do not start at the root. -/
class WorkingDirectory where
  place : Place

abbrev FileSystem := SortedMap Place Entry

namespace FileSystem

/-- The entry at a place; the root itself is always there. -/
def entryAt (fs : FileSystem) (place : Place) : Option Entry :=
  if place = [] then some .directory else fs.get? place

def requireDirectory (fs : FileSystem) (place : Place) : Except FileError Unit :=
  match fs.entryAt place with
  | none => .error .notFound
  | some (.file _) => .error .notDirectory
  | some .directory => .ok ()

/-- Goes from a place, which has to be a directory, to a name in it or to the directory above. Nothing
is above the root. -/
def enter (fs : FileSystem) (place : Place) (name : String) : Except FileError Place := do
  fs.requireDirectory place
  return if name = ".." then place.dropLast else place ++ [name]

def nameIn? (directory place : Place) : Option String :=
  if place.dropLast = directory then place.getLast? else none

variable [WorkingDirectory]

def startOf (path : String) : Place := if Path.isAbsolute path then [] else WorkingDirectory.place

/-- The place that a path leads to; something needs to be only at the places on the way. -/
def locate (fs : FileSystem) (path : String) : Except FileError Place :=
  if path.isEmpty then .error .notFound
  else do
    let place ← (Path.names path).foldlM fs.enter (startOf path)
    -- A dot at the end goes on to the same place.
    if Path.endsInDot path then fs.requireDirectory place
    return place

def lookUp (fs : FileSystem) (path : String) : Except FileError Entry := do
  match fs.entryAt (← fs.locate path) with
  | none => throw .notFound
  | some (.file content) =>
    if Path.meansDirectory path then throw .notDirectory else return .file content
  | some .directory => return .directory

/-- What a path leads to, if anything. -/
def kind? (fs : FileSystem) (path : String) : Option EntryKind :=
  match fs.lookUp path with
  | .ok entry => some entry.kind
  | .error _ => none

def read (fs : FileSystem) (path : String) : Except FileError Bytes := do
  match ← fs.lookUp path with
  | .directory => throw .isDirectory
  | .file content => return content

def list (fs : FileSystem) (path : String) : Except FileError (List String) := do
  let place ← fs.locate path
  match ← fs.lookUp path with
  | .directory => return fs.keys.filterMap (nameIn? place)
  | .file _ => throw .notDirectory

def makeDirectory (fs : FileSystem) (path : String) : Except FileError FileSystem := do
  let place ← fs.locate path
  match fs.entryAt place with
  | some _ => throw .alreadyExists
  | none => return fs.insert place .directory

def write (fs : FileSystem) (path : String) (content : Bytes) : Except FileError FileSystem := do
  let place ← fs.locate path
  if Path.meansDirectory path || fs.entryAt place == some .directory then throw .isDirectory
  return fs.insert place (.file content)

/-- Moves a file to another path, replacing a file that is there. -/
def rename (fs : FileSystem) (source target : String) : Except FileError FileSystem := do
  let content ← fs.read source
  let sourcePlace ← fs.locate source
  let place ← fs.locate target
  if Path.endsInDots target then throw .busy
  if Path.meansDirectory target then throw .notDirectory
  if fs.entryAt place == some .directory then throw .isDirectory
  return (fs.filter fun p _ => p != sourcePlace).insert place (.file content)

namespace AtRoot

scoped instance : WorkingDirectory := ⟨[]⟩

end AtRoot

end FileSystem

end CheckpointedLog
