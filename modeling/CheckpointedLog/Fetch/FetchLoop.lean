import CheckpointedLog.Fetch.Fetcher

/-!
The fetch loop as a machine of small steps. In a round, all tracked partitions are positioned, then
all are polled at once, and when the slowest poll is done the records are emitted, partition by
partition. Between two steps anything else may happen to the shared state; within a step nothing does.
An emission and the move of the offset that goes with it are one step, so whoever looks at the offsets
between steps sees both or neither.
-/
namespace CheckpointedLog

/-- The outcome of the poll of a partition from a position on. -/
structure Polled where
  partition : Partition
  position : Position
  records : Except SourceError (List Record)

/-- Where the fetch loop is. Times are milliseconds. -/
inductive FetchStage where
  /-- Before a round. -/
  | idle
  /-- The partitions `todo` of the round are still to be positioned. -/
  | positioning (round todo : List Partition)
  /-- The broker resolved the offset of a partition, which is not recorded yet. -/
  | recording (round todo : List Partition) (partition : Partition) (position : Position)
  /-- All partitions were polled; the slowest poll takes until `wake`. -/
  | awaiting (outcomes : List Polled) (wake : Nat)
  /-- Records of a partition are being emitted; `failure` is the first one of the round. -/
  | delivering (partition : Partition) (records : List Record) (rest : List Polled)
    (failure : Option SourceError)
  /-- Before the next round, which a cancellation brings forward. -/
  | pausing (wake : Nat)
  | finished (result : Except SourceError Unit)

/-- The state of the fetch loop that nothing else sees. -/
structure FetchLoop where
  stage : FetchStage := .idle
  /-- The position from which each partition is polled next, once it is known. -/
  positions : OffsetMap := .empty
  /-- The number of failed rounds since the last one that did not fail. -/
  failures : UInt32 := 0

namespace FetchLoop

variable {ω : Type}

def result? (l : FetchLoop) : Option (Except SourceError Unit) :=
  match l.stage with
  | .finished r => some r
  | _ => none

def wakeAt (f : Fetcher) (l : FetchLoop) : Nat :=
  match l.stage with
  | .awaiting _ wake => wake
  | .pausing wake => if f.isCancelled then 0 else wake
  | _ => 0

def endRound (l : FetchLoop) : FetchLoop := { l with stage := .idle, failures := 0 }

/-- Ends a round with a failure: one that passes is waited for, any other ends the loop. -/
def failRound (f : Fetcher) (now : Nat) (e : SourceError) (l : FetchLoop) : FetchLoop :=
  if e.isRetryable then
    { l with
      stage := .pausing (now + f.settings.backoff.delay l.failures)
      failures := BackoffGrowth.successor l.failures }
  else { l with stage := .finished (.error e) }

def settle (f : Fetcher) (now : Nat) (failure : Option SourceError) (l : FetchLoop) :
    List Polled → FetchLoop
  | [] =>
    match failure with
    | none => l.endRound
    | some e => l.failRound f now e
  | o :: rest =>
    match o.records with
    | .ok records => { l with stage := .delivering o.partition records rest failure }
    | .error e =>
      -- The first failure is set aside until the other outcomes of the round were taken.
      let failure := failure.or (some (Fetcher.failureAt o.partition o.position e))
      if f.isCancelled then l.endRound else settle f now failure l rest

def settleRest (f : Fetcher) (now : Nat) (failure : Option SourceError) (rest : List Polled)
    (l : FetchLoop) : FetchLoop :=
  if f.isCancelled then l.endRound else l.settle f now failure rest

/-- Begins a round, unless fetching was cancelled. -/
def beginRound (f : Fetcher) (now : Nat) (l : FetchLoop) : FetchLoop :=
  if f.isCancelled then { l with stage := .finished (.ok ()) }
  else match f.offsets.keys with
    -- Without partitions the loop waits as long as a poll may take.
    | [] => { l with stage := .pausing (now + f.settings.pollTimeoutMs), failures := 0 }
    | round => { l with stage := .positioning round round }

/-- Polls partitions in order, each from its position on; the polls run at the same time. -/
def pollAll (client : BrokerClient ω) (timeoutMs : Nat) (positions : OffsetMap) :
    List Partition → ω → List Polled × Nat × ω
  | [], w => ([], 0, w)
  | p :: ps, w =>
    let position := (positions.get? p).getD 0
    let (reply, w) := client.poll p position timeoutMs w
    let (others, waitMs, w) := pollAll client timeoutMs positions ps w
    (⟨p, position, reply.records⟩ :: others, max reply.waitMs waitMs, w)

/-- Positions a partition: after its last offset, or where the broker says that the sentinel is. -/
def position (client : BrokerClient ω) (f : Fetcher) (now : Nat) (round todo : List Partition)
    (p : Partition) (l : FetchLoop) (w : ω) : FetchLoop × ω :=
  if l.positions.contains p then ({ l with stage := .positioning round todo }, w)
  else match f.offsets.get? p with
    | none =>
      (l.failRound f now (.poll p (-1) "partition is not tracked in offset state"), w)
    | some (.concrete last) =>
      match Fetcher.positionAfter p last with
      | .error e => (l.failRound f now e, w)
      | .ok position =>
        ({ l with
          stage := .positioning round todo
          positions := l.positions.insert p position }, w)
    | some sentinel =>
      match client.resolve p sentinel w with
      | (.error e, w) => (l.failRound f now (Fetcher.failureAt p sentinel.toRaw e), w)
      | (.ok position, w) => ({ l with stage := .recording round todo p position }, w)

/-- The offsets after the position of a sentinel was found: the sentinel gives way to the offset
before the position. -/
def recordPosition (s : OffsetState) (p : Partition) (position : Position) : OffsetState :=
  if (s.get? p).any Offset.isSentinel then (s.advance p (Position.beforeCapped position)).2 else s

/-- One step at the time `now`; also gives the record that the step emits, if it emits one. -/
def step (client : BrokerClient ω) (now : Nat) (l : FetchLoop) (f : Fetcher) (w : ω) :
    FetchLoop × Fetcher × ω × Option Record :=
  match l.stage with
  | .idle | .pausing _ => (l.beginRound f now, f, w, none)
  | .positioning round (p :: todo) =>
    let (l, w) := l.position client f now round todo p w
    (l, f, w, none)
  | .positioning round [] =>
    let (outcomes, waitMs, w) := pollAll client f.settings.pollTimeoutMs l.positions round w
    ({ l with stage := .awaiting outcomes (now + waitMs) }, f, w, none)
  | .recording round todo p position =>
    ({ l with
        stage := .positioning round todo
        positions := l.positions.insert p position },
      { f with offsets := recordPosition f.offsets p position }, w, none)
  | .awaiting outcomes _ => (l.settle f now none outcomes, f, w, none)
  | .delivering _ [] rest failure => (l.settleRest f now failure rest, f, w, none)
  | .delivering p (r :: records) rest failure =>
    -- A broker may answer with records before the position that it was asked for.
    if r.offset < (l.positions.get? p).getD 0 then
      ({ l with stage := .delivering p records rest failure }, f, w, none)
    else if f.isCancelled then (l.endRound, f, w, none)
    else
      ({ l with
          stage := .delivering p records rest failure
          positions := l.positions.insert p (Position.afterCapped r.offset) },
        { f with offsets := (f.offsets.advance p r.offset).2 }, w, some r)
  | .finished _ => (l, f, w, none)

end FetchLoop

end CheckpointedLog
