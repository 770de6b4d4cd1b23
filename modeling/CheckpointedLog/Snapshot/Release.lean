import CheckpointedLog.SourceError

namespace CheckpointedLog

inductive SnapshotForm where
  /-- The entries alone. -/
  | unversioned
  /-- A tag with the version of the format, then the entries. -/
  | tagged
deriving DecidableEq, Repr

inductive Release where
  | v0_1
  | v0_2
  | v0_3
  | v1_0
deriving DecidableEq, Repr

namespace Release

def all : List Release := [v0_1, v0_2, v0_3, v1_0]

def current : Release := v1_0

def age : Release → Nat
  | v0_1 => 0
  | v0_2 => 1
  | v0_3 => 2
  | v1_0 => 3

def name : Release → String
  | v0_1 => "0.1"
  | v0_2 => "0.2"
  | v0_3 => "0.3"
  | v1_0 => "1.0"

def display (r : Release) : String := "v" ++ r.name

/-- The release of a number, which may follow a `v`. -/
def ofName (s : String) : Except SourceError Release :=
  let digits := match s.toList with
    | 'v' :: cs => String.ofList cs
    | _ => s
  match all.find? fun r => r.name == digits with
  | some r => .ok r
  | none => .error (.invalidValue "version" ("unknown release '" ++ s ++ "'"))

/-- The releases from one through another, oldest first. -/
def range (first last : Release) : List Release :=
  all.filter fun r => first.age ≤ r.age && r.age ≤ last.age

/-- The releases from one through another, and the form they all wrote. -/
structure Era where
  first : Release
  last : Release
  form : SnapshotForm
deriving DecidableEq, Repr

def eras : List Era := [⟨v0_1, v0_2, .unversioned⟩, ⟨v0_3, current, .tagged⟩]

def era? (r : Release) : Option Era :=
  eras.find? fun era => (range era.first era.last).contains r

theorem isSome_era? (r : Release) : r.era?.isSome = true := by
  cases r <;> rfl

def form (r : Release) : SnapshotForm := (r.era?.get r.isSome_era?).form

end Release

end CheckpointedLog
