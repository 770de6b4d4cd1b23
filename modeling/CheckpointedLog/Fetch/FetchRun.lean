import CheckpointedLog.Fetch.FetchLoop
import CheckpointedLog.Timeline

namespace CheckpointedLog

/-- A run of the fetch loop in a world of type `ω`. -/
structure FetchRun (ω : Type) where
  loop : FetchLoop := {}
  fetcher : Fetcher
  world : ω

namespace FetchRun

variable {ω : Type}

def cancel (r : FetchRun ω) : FetchRun ω := { r with fetcher := r.fetcher.cancel }

/-- Does the next step of the loop, or waits for its time. -/
def activity (client : BrokerClient ω) : Activity (FetchRun ω) (Except SourceError Unit) Record :=
  fun now r =>
    match r.loop.result? with
    | some result => .ends r result
    | none =>
      let wake := r.loop.wakeAt r.fetcher
      if now < wake then .sleeps wake
      else
        let (loop, fetcher, world, emitted) := r.loop.step client now r.fetcher r.world
        .acts ⟨loop, fetcher, world⟩ emitted

end FetchRun

end CheckpointedLog
