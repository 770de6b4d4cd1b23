import CheckpointedLog.Connector.Connector
import CheckpointedLog.Fetch.FetchRun

namespace CheckpointedLog

/-- Where periodic discovery is. Times are milliseconds. -/
inductive DiscoveryStage where
  | waiting (wake : Nat)
  /-- Partitions were found that are to be tracked. -/
  | adding (found : List Partition)
deriving DecidableEq, Repr

structure DiscoveryLoop where
  stage : DiscoveryStage
  /-- The number of failures since the last success. -/
  failures : UInt32 := 0
deriving DecidableEq, Repr

/-- A run of a connector in a world of type `ω`. -/
structure ConnectorRun (δ ω : Type) where
  fetch : FetchLoop := {}
  /-- Periodic discovery, unless it is disabled or has ended. -/
  discovery : Option DiscoveryLoop := none
  /-- Why discovery ended, if it failed. -/
  failure : Option SourceError := none
  connector : Connector δ
  world : ω

namespace ConnectorRun

variable {δ ω : Type}

/-- Begins a run, if the phase allows it; otherwise gives what the attempt results in. -/
def begin (c : Connector δ) (w : ω) : Except (Except SourceError Unit) (ConnectorRun δ ω) :=
  if c.phase = .opened then
    let discovery := c.config.discoveryInterval?.map fun interval => ⟨.waiting interval, 0⟩
    .ok { discovery := discovery, connector := { c with phase := .running }, world := w }
  -- A connector that was asked to stop before has nothing to do.
  else if c.phase.isStopping then .error (.ok ())
  else .error (.error (c.phase.refusal "run"))

def cancel (r : ConnectorRun δ ω) : ConnectorRun δ ω := { r with connector := r.connector.cancel }

def nextDiscovery (config : SourceConfig) (now : Nat) (failures : UInt32) : DiscoveryLoop :=
  let delay :=
    if failures = 0 then config.discoveryInterval?.getD 0 else config.backoff.delay (failures - 1)
  ⟨.waiting (now + delay), failures⟩

def discoveryFailed (now : Nat) (failures : UInt32) (e : SourceError) (r : ConnectorRun δ ω) :
    ConnectorRun δ ω :=
  let failures := failures + 1
  -- After too many failures in a row discovery ends, and fetching with it.
  if r.connector.config.maxDiscoveryAttempts ≤ failures then
    { r with
      discovery := none
      failure := some (.discoveryExhausted failures e.message)
      connector := { r.connector with fetcher := r.connector.fetcher.map Fetcher.cancel } }
  else { r with discovery := some (nextDiscovery r.connector.config now failures) }

/-- Looks for partitions; those that are owned and were not marked before are to be tracked. -/
def discover (d : Discoverer δ ω) (now : Nat) (failures : UInt32) (r : ConnectorRun δ ω) :
    ConnectorRun δ ω :=
  match r.connector.discoverer with
  | none => r.discoveryFailed now failures (r.connector.phase.refusal "discover partitions")
  | some s =>
    match d.discover s r.world with
    | (.error e, s, w) =>
      { r with connector := { r.connector with discoverer := some s }, world := w }.discoveryFailed
        now failures e
    | (.ok discovered, s, w) =>
      let (found, s, w) := d.markAll (r.connector.subtask.assign discovered) s w
      { r with
        discovery := some ⟨.adding found, failures⟩
        connector := { r.connector with discoverer := some s }
        world := w }

def track (found : List Partition) (c : Connector δ) : Connector δ :=
  { c with
    fetcher := c.fetcher.map fun f =>
      { f with offsets := (f.offsets.addPartitions .earliest found).2 } }

/-- One step of discovery at the time `now`. -/
def stepDiscovery (d : Discoverer δ ω) (now : Nat) (l : DiscoveryLoop) (r : ConnectorRun δ ω) :
    ConnectorRun δ ω :=
  match l.stage with
  | .adding found =>
    { r with
      discovery := some (nextDiscovery r.connector.config now 0)
      connector := track found r.connector }
  | .waiting _ =>
    -- A request to stop is noticed only here: what was found before is still tracked.
    if r.connector.phase.isStopping then { r with discovery := none }
    else r.discover d now l.failures

/-- The time before which discovery has nothing to do. -/
def discoveryWake (phase : Phase) (l : DiscoveryLoop) : Nat :=
  match l.stage with
  | .adding _ => 0
  | .waiting wake => if phase.isStopping then 0 else wake

/-- One step of the fetch loop at the time `now`; also gives the record that the step emits. -/
def stepFetch (client : BrokerClient ω) (now : Nat) (f : Fetcher) (r : ConnectorRun δ ω) :
    ConnectorRun δ ω × Option Record :=
  let (fetch, f, w, emitted) := r.fetch.step client now f r.world
  ({ r with
    fetch := fetch
    connector := { r.connector with fetcher := some f }
    world := w }, emitted)

/-- Ends a run. A failure stops the connector. -/
def finish (result : Except SourceError Unit) (r : ConnectorRun δ ω) :
    ConnectorRun δ ω × Except SourceError Unit :=
  match r.failure, result with
  | some e, _ | none, .error e => (r.cancel, .error e)
  | none, .ok () => (r, .ok ())

/-- What a run does next if fetching was set up. The fetch loop goes first. -/
def next (parts : Components δ ω) (now : Nat) (f : Fetcher) (r : ConnectorRun δ ω) :
    Progress (ConnectorRun δ ω) (Except SourceError Unit) Record :=
  match r.fetch.result? with
  | some result =>
    let (r, result) := r.finish result
    .ends r result
  | none =>
    let fetchWake := r.fetch.wakeAt f
    if fetchWake ≤ now then
      let (r, emitted) := r.stepFetch parts.client now f
      .acts r emitted
    else match r.discovery with
      | none => .sleeps fetchWake
      | some l =>
        let wake := discoveryWake r.connector.phase l
        if wake ≤ now then .acts (r.stepDiscovery parts.discoverer now l) none
        else .sleeps (min fetchWake wake)

def activity (parts : Components δ ω) :
    Activity (ConnectorRun δ ω) (Except SourceError Unit) Record := fun now r =>
  match r.connector.fetcher with
  | none => .ends r (.error (r.connector.phase.refusal "use fetcher"))
  | some f => r.next parts now f

end ConnectorRun

end CheckpointedLog
