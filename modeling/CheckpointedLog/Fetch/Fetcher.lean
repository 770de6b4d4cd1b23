import CheckpointedLog.Backoff
import CheckpointedLog.Broker.Client

namespace CheckpointedLog

structure FetchSettings where
  /-- The longest time that one poll may take. -/
  pollTimeoutMs : Nat := 100
  backoff : Backoff := {}
deriving DecidableEq, Repr

structure Fetcher where
  settings : FetchSettings := {}
  offsets : OffsetState
  isCancelled : Bool := false

namespace Fetcher

variable {ω : Type}

def cancel (f : Fetcher) : Fetcher := { f with isCancelled := true }

/-- The position after the last offset of a partition. -/
def positionAfter (p : Partition) (last : Int64) : Except SourceError Position :=
  match Position.after? last with
  | some position => .ok position
  | none => .error (.poll p last "offset overflow")

/-- The positions after all last offsets; the first partition without one is reported. -/
def positionsAfter (offsets : OffsetMap) : Except SourceError OffsetMap := do
  let entries ← offsets.entries.mapM fun (p, last) => return (p, ← positionAfter p last)
  return SortedMap.ofList entries

/-- Commits last offsets to the broker, as positions. Without offsets the broker is not asked. -/
def commit (client : BrokerClient ω) (offsets : OffsetMap) (w : ω) : Except SourceError Unit × ω :=
  if offsets.isEmpty then (.ok (), w)
  else match positionsAfter offsets with
    | .error e => (.error e, w)
    | .ok positions => client.commit positions w

def close (client : BrokerClient ω) (f : Fetcher) (w : ω) :
    Except SourceError Unit × Fetcher × ω :=
  let (r, w) := client.close w
  (r, f.cancel, w)

/-- The failure of a request for a partition. A failure that says what failed, or that passes, is
reported as it is. -/
def failureAt (p : Partition) (offset : Int64) (e : SourceError) : SourceError :=
  match e with
  | .poll .. | .transient _ | .timeout _ | .discovery _ => e
  | _ => .poll p offset e.message

end Fetcher

end CheckpointedLog
