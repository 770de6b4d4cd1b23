import CheckpointedLog.Files.FileSystem
import CheckpointedLog.SourceError

/-!
Programs on files, one operation after the other. Between two operations anything may look at the
files, and the program may end for good; `FileProgram.run` is what happens if nothing interferes.
-/
namespace CheckpointedLog

/-- A program on files; each operation is followed by what is done with its outcome. -/
inductive FileProgram (α : Type) where
  | done (result : α)
  /-- Looks what a path leads to. -/
  | kind (path : String) (next : Option EntryKind → FileProgram α)
  | read (path : String) (next : Except FileError Bytes → FileProgram α)
  | list (path : String) (next : Except FileError (List String) → FileProgram α)
  | makeDirectory (path : String) (next : Except FileError Unit → FileProgram α)
  | write (path : String) (content : Bytes) (next : Except FileError Unit → FileProgram α)
  | rename (source target : String) (next : Except FileError Unit → FileProgram α)

namespace FileProgram

variable {α β : Type}

def andThen (p : FileProgram α) (f : α → FileProgram β) : FileProgram β :=
  match p with
  | done a => f a
  | kind path next => kind path fun r => (next r).andThen f
  | read path next => read path fun r => (next r).andThen f
  | list path next => list path fun r => (next r).andThen f
  | makeDirectory path next => makeDirectory path fun r => (next r).andThen f
  | write path content next => write path content fun r => (next r).andThen f
  | rename source target next => rename source target fun r => (next r).andThen f

instance : Monad FileProgram where
  pure := done
  bind := andThen

/-- What an operation that may change the files leaves behind. -/
def outcome (fs : FileSystem) : Except FileError FileSystem → Except FileError Unit × FileSystem
  | .ok after => (.ok (), after)
  | .error e => (.error e, fs)

variable [WorkingDirectory]

/-- The result of a program and the files it leaves behind. -/
def run (fs : FileSystem) : FileProgram α → α × FileSystem
  | done a => (a, fs)
  | kind path next => (next (fs.kind? path)).run fs
  | read path next => (next (FileSystem.read fs path)).run fs
  | list path next => (next (FileSystem.list fs path)).run fs
  | makeDirectory path next =>
    let (r, after) := outcome fs (FileSystem.makeDirectory fs path)
    (next r).run after
  | write path content next =>
    let (r, after) := outcome fs (FileSystem.write fs path content)
    (next r).run after
  | rename source target next =>
    let (r, after) := outcome fs (FileSystem.rename fs source target)
    (next r).run after

/-- Whether a program may leave these files behind when it ends for good before an operation, or while it
writes: then the first part of the content is there, up to all of it. -/
def BreaksOff (fs after : FileSystem) : FileProgram α → Prop
  | done _ => False
  | kind path next => after = fs ∨ (next (fs.kind? path)).BreaksOff fs after
  | read path next => after = fs ∨ (next (FileSystem.read fs path)).BreaksOff fs after
  | list path next => after = fs ∨ (next (FileSystem.list fs path)).BreaksOff fs after
  | makeDirectory path next =>
    after = fs ∨
      let (r, mid) := outcome fs (FileSystem.makeDirectory fs path)
      (next r).BreaksOff mid after
  | write path content next =>
    after = fs ∨ (∃ n, FileSystem.write fs path (content.take n) = .ok after) ∨
      let (r, mid) := outcome fs (FileSystem.write fs path content)
      (next r).BreaksOff mid after
  | rename source target next =>
    after = fs ∨
      let (r, mid) := outcome fs (FileSystem.rename fs source target)
      (next r).BreaksOff mid after

end FileProgram

abbrev FileTask := ExceptT SourceError FileProgram

namespace FileTask

def request {α : Type} (operation : (Except FileError α → FileProgram (Except FileError α)) →
    FileProgram (Except FileError α)) : FileTask α :=
  ExceptT.mk ((operation .done).andThen fun r => .done (r.mapError fun e => .io e.message))

def kind (path : String) : FileTask (Option EntryKind) :=
  ExceptT.mk (.kind path fun k => .done (.ok k))

def read (path : String) : FileTask Bytes := request (.read path)

def list (path : String) : FileTask (List String) := request (.list path)

def write (path : String) (content : Bytes) : FileTask Unit := request (.write path content)

def rename (source target : String) : FileTask Unit := request (.rename source target)

/-- The content of a file whose path has to lead to something. -/
def readExisting (path : String) : FileTask Bytes := do
  if (← kind path).isNone then throw (.fileNotFound path)
  read path

/-- The text in a file whose path has to lead to something. -/
def readText (path : String) : FileTask String := do
  match Utf8.decode (← readExisting path) with
  | .ok s => return s
  | .error _ => throw (.io FileError.notText.message)

def makeIfMissing (path : String) : FileTask Unit :=
  ExceptT.mk <| .makeDirectory path fun
    | .ok () => .done (.ok ())
    | .error e => .kind path fun k =>
      .done (if k == some .directory then .ok () else .error (.io e.message))

/-- Creates a directory and up to `depth` of those it is in. -/
def makeNested (depth : Nat) (path : String) : FileTask Unit :=
  if path.isEmpty then pure ()
  else ExceptT.mk <| .makeDirectory path fun
    | .ok () => .done (.ok ())
    | .error .notFound =>
      match depth, Path.parent? path with
      | depth + 1, some parent => do
        match ← (makeNested depth parent).run with
        | .error e => return .error e
        | .ok () => (makeIfMissing path).run
      | _, _ => .done (.error (.io FileError.noParent.message))
    | .error e => .kind path fun k =>
      .done (if k == some .directory then .ok () else .error (.io e.message))

def makeDirectories (path : String) : FileTask Unit := makeNested path.length path

/-- Replaces the content of a file in one step: the content is written beside it and then moved. -/
def replace (path : String) (content : Bytes) : FileTask Unit := do
  let beside := Path.withExtension path "tmp"
  write beside content
  rename beside path

def ofExcept {α : Type} (r : Except SourceError α) : FileTask α := ExceptT.mk (.done r)

def inContext {α : Type} (note : String) (t : FileTask α) : FileTask α :=
  ExceptT.mk (t.run.andThen fun r => .done (r.mapError (SourceError.inContext note)))

end FileTask

end CheckpointedLog
