import CheckpointedLog.Fetch.FetchHistory

/-!
What a fetcher asks its client over its whole life, one run after the other. A client that keeps a list of
these calls stands for any client. The calls of a run come in rounds, and what the calls of a round have to
be is said without the loop: from the offsets at the beginning of the round, and from the partitions that
have their positions from the rounds before it (`FetchRound.Completes`).
-/
namespace CheckpointedLog

variable {ω : Type}

inductive FetchCall where
  /-- The client was asked for the position of an offset; `answer` is the one that it found. -/
  | resolve (p : Partition) (o : Offset) (answer : Option Position)
  | poll (p : Partition) (position : Position)
deriving DecidableEq, Repr

/-- The client in a world that keeps the calls that resolve or poll. -/
def BrokerClient.tracing (client : BrokerClient ω) : BrokerClient (ω × List FetchCall) :=
  { client.besides (List FetchCall) with
    resolve := fun p o w =>
      let (r, v) := client.resolve p o w.1
      (r, v, w.2 ++ [.resolve p o r.toOption])
    poll := fun p position timeoutMs w =>
      let (reply, v) := client.poll p position timeoutMs w.1
      (reply, v, w.2 ++ [.poll p position]) }

/-- The offsets of all tracked partitions at the beginning of a round, and the calls of the round. -/
structure FetchRound where
  offsets : OffsetState
  calls : List FetchCall := []
deriving DecidableEq

def FetchRound.extend (r : FetchRound) (new : List FetchCall) : FetchRound :=
  { r with calls := r.calls ++ new }

/-- The calls by which partitions get their positions one after the other, without a failure; those in
`known` have theirs from earlier rounds. The client is asked only for a sentinel. -/
inductive FetchRound.Positions (s : OffsetState) (known : List Partition) :
    List Partition → List FetchCall → Prop where
  | nil : Positions s known [] []
  | known {ps : List Partition} {calls : List FetchCall} {p : Partition}
      (h : Positions s known ps calls) (hp : p ∈ known) : Positions s known (ps ++ [p]) calls
  | concrete {ps : List Partition} {calls : List FetchCall} {p : Partition} {last : Int64}
      (h : Positions s known ps calls) (hp : p ∉ known) (ho : s.get? p = some (.concrete last))
      (hlast : last ≠ Int64.maxValue) : Positions s known (ps ++ [p]) calls
  | sentinel {ps : List Partition} {calls : List FetchCall} {p : Partition} {o : Offset} {n : Position}
      (h : Positions s known ps calls) (hp : p ∉ known) (ho : s.get? p = some o)
      (hs : o.isSentinel = true) :
      Positions s known (ps ++ [p]) (calls ++ [.resolve p o (some n)])

/-- A whole round, and the partitions that have positions after it. -/
inductive FetchRound.Completes (known : List Partition) : FetchRound → List Partition → Prop where
  /-- All partitions got positions, and each of them was polled once. -/
  | polled {s : OffsetState} {calls : List FetchCall} (position : Partition → Position)
      (h : Positions s known s.keys calls) :
      Completes known ⟨s, calls ++ s.keys.map fun p => .poll p (position p)⟩ (known ++ s.keys)
  /-- The client could not find a sentinel. -/
  | unresolved {s : OffsetState} {calls : List FetchCall} {front back : List Partition}
      {p : Partition} {o : Offset} (hkeys : s.keys = front ++ p :: back)
      (h : Positions s known front calls) (hp : p ∉ known) (ho : s.get? p = some o)
      (hs : o.isSentinel = true) :
      Completes known ⟨s, calls ++ [.resolve p o none]⟩ (known ++ front)
  /-- There is no position after an offset. -/
  | overflowed {s : OffsetState} {calls : List FetchCall} {front back : List Partition}
      {p : Partition} (hkeys : s.keys = front ++ p :: back) (h : Positions s known front calls)
      (hp : p ∉ known) (ho : s.get? p = some (.concrete Int64.maxValue)) :
      Completes known ⟨s, calls⟩ (known ++ front)

/-- A round in which some partitions got positions and the others are still to get them. -/
def FetchRound.Proceeds (known : List Partition) (r : FetchRound) : Prop :=
  ∃ front back, r.offsets.keys = front ++ back ∧ Positions r.offsets known front r.calls

/-- The whole rounds of a run from its beginning on, and the partitions that have positions after them. -/
inductive FetchRound.Sequence : List FetchRound → List Partition → Prop where
  | nil : Sequence [] []
  | snoc {rounds : List FetchRound} {r : FetchRound} {known known' : List Partition}
      (h : Sequence rounds known) (hr : r.Completes known known') : Sequence (rounds ++ [r]) known'

/-- Whether the next step of the loop begins a round. -/
def FetchLoop.beginsRound (f : Fetcher) (l : FetchLoop) : Bool :=
  match l.stage with
  | .idle | .pausing _ => !f.isCancelled
  | _ => false

/-- Whether the loop is giving positions to the partitions of a round. -/
def FetchLoop.isPositioning (l : FetchLoop) : Bool :=
  match l.stage with
  | .positioning .. | .recording .. => true
  | _ => false

def FetchAction.beside {α : Type} (x : α) : FetchAction ω → FetchAction (ω × α)
  | .step now => .step now
  | .copy => .copy
  | .add o ps => .add o ps
  | .cancel => .cancel
  | .world w => .world (w, x)

/-- Something that happens to a fetcher. -/
inductive FetchLifeAction (ω : Type) where
  | act (a : FetchAction ω)
  /-- A run begins, after the one before it has returned. -/
  | again

structure FetchLife (ω : Type) where
  /-- The last run. -/
  trace : FetchTrace (ω × List FetchCall)
  /-- The rounds of the last run, apart from the one that began last. -/
  rounds : List FetchRound := []
  /-- The round that began last. -/
  current : Option FetchRound := none
  /-- The rounds of the runs before. -/
  past : List (List FetchRound) := []

namespace FetchLife

def begin (f : Fetcher) (w : ω) : FetchLife ω := { trace := .begin f (w, []) }

def calls (t : FetchLife ω) : List FetchCall := t.trace.run.world.2

def runs (t : FetchLife ω) : List (List FetchRound) := t.past ++ [t.rounds ++ t.current.toList]

def beginsRound (t : FetchLife ω) : FetchAction ω → Bool
  | .step _ => t.trace.run.loop.beginsRound t.trace.run.fetcher
  | _ => false

def perform (client : BrokerClient ω) (t : FetchLife ω) : FetchLifeAction ω → FetchLife ω
  | .act a =>
    let trace := t.trace.perform client.tracing (a.beside t.calls)
    let new := trace.run.world.2.drop t.calls.length
    if t.beginsRound a then
      { t with
        trace := trace
        rounds := t.rounds ++ t.current.toList
        current := some ⟨t.trace.run.fetcher.offsets, new⟩ }
    else { t with trace := trace, current := t.current.map (·.extend new) }
  | .again =>
    match t.trace.run.loop.result? with
    | none => t
    | some _ => { trace := .begin t.trace.run.fetcher t.trace.run.world, past := t.runs }

def performAll (client : BrokerClient ω) (t : FetchLife ω) (actions : List (FetchLifeAction ω)) :
    FetchLife ω :=
  actions.foldl (perform client) t

end FetchLife

end CheckpointedLog
