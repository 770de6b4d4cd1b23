import CheckpointedLog.Fetch.FetchRun

/-!
Fetching as a sequence of critical sections. One action is one of them: the loop does a step, or
someone else copies the offsets, adds partitions, cancels, or changes the world behind the client.
The history of a run remembers what was resolved, emitted, added and copied, in this order, and says
from it alone what the offset of each partition has to be (`FetchHistory.entry`).
-/
namespace CheckpointedLog

/-- Something that happens to fetching in a world of type `ω`. -/
inductive FetchAction (ω : Type) where
  /-- The loop does its next step at the time `now`. -/
  | step (now : Nat)
  /-- Someone copies the offsets. -/
  | copy
  | add (o : Offset) (ps : List Partition)
  | cancel
  /-- The world behind the client becomes another one. -/
  | world (w : ω)

inductive FetchEvent where
  /-- The position that the broker found for the sentinel of a partition was recorded. -/
  | resolved (p : Partition) (position : Position)
  /-- A record that was polled from a partition was emitted; it may claim to be from another one. -/
  | emitted (p : Partition) (r : Record)
  | added (ps : List Partition) (o : Offset)
  | copied (s : OffsetState)
deriving DecidableEq

abbrev FetchHistory := List FetchEvent

namespace FetchHistory

/-- The records that were polled from a partition and emitted. -/
def recordsFrom (h : FetchHistory) (p : Partition) : List Record :=
  h.filterMap fun
    | .emitted q r => if q = p then some r else none
    | _ => none

def records (h : FetchHistory) : List Record :=
  h.filterMap fun
    | .emitted _ r => some r
    | _ => none

/-- The positions that were recorded for the sentinel of a partition. -/
def resolutions (h : FetchHistory) (p : Partition) : List Position :=
  h.filterMap fun
    | .resolved q position => if q = p then some position else none
    | _ => none

def added (h : FetchHistory) : List Partition :=
  h.flatMap fun
    | .added ps _ => ps
    | _ => []

/-- The offset with which a partition came to be tracked: when the run began at the offsets `s`, or
when it was first added. -/
def origin (s : OffsetState) (h : FetchHistory) (p : Partition) : Option Offset :=
  (s.get? p).or (h.findSome? fun
    | .added ps o => if p ∈ ps then some o else none
    | _ => none)

/-- The offset of a partition after a run that began at the offsets `s`: that of its last record, else
the one before the position of its sentinel, else the one that it came with. -/
def entry (s : OffsetState) (h : FetchHistory) (p : Partition) : Option Offset :=
  match (h.recordsFrom p).getLast? with
  | some r => some (.concrete r.offset)
  | none =>
    match (h.resolutions p).getLast? with
    | some position => some (.concrete (Position.beforeCapped position))
    | none => h.origin s p

/-- The position of the first record to emit of a partition: after the concrete offset that it came
with, or where its sentinel was resolved to. -/
def start (s : OffsetState) (h : FetchHistory) (p : Partition) : Option Int :=
  match h.origin s p with
  | some (.concrete last) => some (last.toInt + 1)
  | some _ => (h.resolutions p).getLast?.map (·.toInt)
  | none => none

end FetchHistory

/-- What a step at this stage is remembered for, when it emitted the given record or none. -/
def FetchLoop.event? (l : FetchLoop) (emitted : Option Record) : Option FetchEvent :=
  match l.stage, emitted with
  | .recording _ _ p position, _ => some (.resolved p position)
  | .delivering p _ _ _, some r => some (.emitted p r)
  | _, _ => none

/-- One action; also gives what is remembered of it. -/
def FetchRun.perform {ω : Type} (client : BrokerClient ω) (r : FetchRun ω) :
    FetchAction ω → FetchRun ω × Option FetchEvent
  | .step now =>
    let (loop, fetcher, world, emitted) := r.loop.step client now r.fetcher r.world
    (⟨loop, fetcher, world⟩, r.loop.event? emitted)
  | .copy => (r, some (.copied r.fetcher.offsets))
  | .add o ps =>
    let offsets := (r.fetcher.offsets.addPartitions o ps).2
    ({ r with fetcher := { r.fetcher with offsets := offsets } }, some (.added ps o))
  | .cancel => (r.cancel, none)
  | .world w => ({ r with world := w }, none)

/-- A run of the fetch loop and what was seen of it. -/
structure FetchTrace (ω : Type) where
  run : FetchRun ω
  history : FetchHistory := []

namespace FetchTrace

variable {ω : Type}

def begin (f : Fetcher) (w : ω) : FetchTrace ω := { run := { fetcher := f, world := w } }

def inWorld (t : FetchTrace ω) (w : ω) : FetchTrace ω := { t with run := { t.run with world := w } }

def perform (client : BrokerClient ω) (t : FetchTrace ω) (a : FetchAction ω) : FetchTrace ω :=
  let (run, event) := t.run.perform client a
  ⟨run, t.history ++ event.toList⟩

def performAll (client : BrokerClient ω) (t : FetchTrace ω) (actions : List (FetchAction ω)) :
    FetchTrace ω :=
  actions.foldl (perform client) t

end FetchTrace

end CheckpointedLog
