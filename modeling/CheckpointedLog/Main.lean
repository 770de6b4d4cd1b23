import CheckpointedLog.Command.Report
import CheckpointedLog.Pattern.Reader

namespace CheckpointedLog

/-- The failure of an operation that the system refused. -/
def FileError.ofSystem : IO.Error → FileError
  | .noFileOrDirectory .. | .noSuchThing .. => .notFound
  | .alreadyExists .. => .alreadyExists
  | .inappropriateType _ 21 _ => .isDirectory
  | .inappropriateType _ 20 _ => .notDirectory
  | .resourceBusy .. => .busy
  | e => .other (toString e)

def attempt {α : Type} (operation : IO α) : IO (Except FileError α) := do
  match ← operation.toBaseIO with
  | .ok a => return .ok a
  | .error e => return .error (.ofSystem e)

def kindOf (path : String) : IO EntryKind := do
  let m ← (← IO.FS.realPath path).metadata
  return if m.type == .dir then .directory else .file

namespace FileProgram

def perform {α : Type} : FileProgram α → IO α
  | done a => return a
  | kind path next => do (next (← attempt (kindOf path)).toOption).perform
  | read path next => do
    (next ((← attempt (IO.FS.readBinFile path)).map (·.toList))).perform
  | list path next => do
    let entries ← attempt (do (← IO.FS.realPath path).readDir)
    (next (entries.map fun es => es.toList.map (·.fileName))).perform
  | makeDirectory path next => do (next (← attempt (IO.FS.createDir path))).perform
  | write path content next => do
    (next (← attempt (IO.FS.writeBinFile path ⟨content.toArray⟩))).perform
  | rename source target next => do (next (← attempt (IO.FS.rename source target))).perform

end FileProgram

end CheckpointedLog

open CheckpointedLog Pattern in
/-- Carries out the command that the words are for, and tells whether it succeeded. -/
def main (words : List String) : IO UInt32 := do
  match Command.Invocation.ofWords words with
  | .error fault =>
    IO.eprintln fault.message
    return 2
  | .ok invocation =>
    match ← invocation.output.run.perform with
    | .error e =>
      IO.eprintln ("Error: " ++ e.message)
      return 1
    | .ok text =>
      IO.print text
      return 0
