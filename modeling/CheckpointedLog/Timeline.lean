/-!
Activities on a clock that stands still while anything can be done. An activity either does something at
the present time, or sleeps, or has ended; while it sleeps, events happen at their times, and otherwise
the clock goes straight to the time at which the activity wakes up.
-/
namespace CheckpointedLog

/-- What an activity of state `σ` does next. -/
inductive Progress (σ ρ ο : Type) where
  /-- It goes to another state at once, and may emit something. -/
  | acts (state : σ) (emitted : Option ο)
  /-- It does nothing before `wake`, which is yet to come, unless an event changes that. -/
  | sleeps (wake : Nat)
  /-- It has ended with a result. -/
  | ends (state : σ) (result : ρ)

abbrev Activity (σ ρ ο : Type) := Nat → σ → Progress σ ρ ο

/-- Something that happens to an activity from outside and has an outcome. -/
structure TimedEvent (σ α : Type) where
  time : Nat
  happen : σ → α × σ

/-- What was seen of an activity that was followed for some time. -/
structure Playback (σ ρ ο α : Type) where
  state : σ
  /-- The time of the end and the result, unless the number of steps was not enough. -/
  ended : Option (Nat × ρ)
  /-- What the activity emitted, with the times. -/
  emissions : List (Nat × ο) := []
  /-- The outcomes of the events, with the times. -/
  outcomes : List (Nat × α) := []

namespace Playback

variable {σ ρ ο α : Type}

def emitted (time : Nat) (o : ο) (b : Playback σ ρ ο α) : Playback σ ρ ο α :=
  { b with emissions := (time, o) :: b.emissions }

/-- Adds the outcome of an event in front of what is seen later. -/
def happened (time : Nat) (a : α) (b : Playback σ ρ ο α) : Playback σ ρ ο α :=
  { b with outcomes := (time, a) :: b.outcomes }

end Playback

namespace Activity

variable {σ ρ ο α : Type}

/-- What an emission is followed by: the one of number `stopAfter` by `stop`. -/
def afterEmission (stopAfter : Option Nat) (stop : σ → σ) (count : Nat) (s : σ) : σ :=
  if stopAfter = some count then stop s else s

/-- Follows an activity for at most `fuel` steps and events, after `count` emissions. An event that falls
on the time of a step comes after it. -/
def follow (p : Activity σ ρ ο) (stopAfter : Option Nat) (stop : σ → σ) :
    (fuel now count : Nat) → List (TimedEvent σ α) → σ → Playback σ ρ ο α
  | 0, _, _, _, s => ⟨s, none, [], []⟩
  | fuel + 1, now, count, events, s =>
    match p now s with
    | .ends s r => ⟨s, some (now, r), [], []⟩
    | .acts s none => follow p stopAfter stop fuel now count events s
    | .acts s (some o) =>
      (follow p stopAfter stop fuel now (count + 1) events
        (afterEmission stopAfter stop (count + 1) s)).emitted now o
    | .sleeps wake =>
      match events with
      | [] => follow p stopAfter stop fuel wake count [] s
      | e :: rest =>
        if e.time < wake then
          let (a, s) := e.happen s
          (follow p stopAfter stop fuel (max now e.time) count rest s).happened e.time a
        else follow p stopAfter stop fuel wake count events s

def stepLimit : Nat := 1000000

/-- Follows an activity from time 0, stopping it at the time `deadline` or after the last event. -/
def play (p : Activity σ ρ ο) (stopAfter : Option Nat) (stop : σ → σ)
    (events : List (TimedEvent σ α)) (deadline : Nat) (s : σ) : Playback σ ρ ο α :=
  let last := events.foldl (fun t e => max t e.time) deadline
  let stopping : TimedEvent σ (Option α) := ⟨last, fun s => (none, stop s)⟩
  let observable (e : TimedEvent σ α) : TimedEvent σ (Option α) :=
    ⟨e.time, fun s => let (a, s) := e.happen s; (some a, s)⟩
  let b := follow p stopAfter stop stepLimit 0 0 (events.map observable ++ [stopping]) s
  ⟨b.state, b.ended, b.emissions, b.outcomes.filterMap fun (t, a) => a.map (t, ·)⟩

end Activity

end CheckpointedLog
