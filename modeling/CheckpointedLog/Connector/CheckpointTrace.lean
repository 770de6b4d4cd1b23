import CheckpointedLog.Connector.Session

/-!
What is seen of the checkpoints of a connector from outside: the bytes that its snapshots return, and the
positions that its client is asked to commit. A client that keeps a list of these requests stands for any
client; the list is written whether a request fails or not.
-/
namespace CheckpointedLog

variable {δ ω : Type}

/-- The client in a world that keeps all positions that the client was asked to commit. -/
def BrokerClient.logging (client : BrokerClient ω) : BrokerClient (ω × List OffsetMap) :=
  { client.besides (List OffsetMap) with
    commit := fun positions w =>
      let (r, v) := client.commit positions w.1
      (r, v, w.2 ++ [positions]) }

/-- The discoverer in a world that has one more part. -/
def Discoverer.besides (d : Discoverer δ ω) (α : Type) : Discoverer δ (ω × α) where
  create := d.create
  start s w := let (r, s, v) := d.start s w.1; (r, s, v, w.2)
  discover s w := let (r, s, v) := d.discover s w.1; (r, s, v, w.2)
  mark p s w := let (isNew, s, v) := d.mark p s w.1; (isNew, s, v, w.2)
  close s w := let (r, s, v) := d.close s w.1; (r, s, v, w.2)

/-- The components in a world that keeps what the client was asked to commit. -/
def Components.logging (parts : Components δ ω) : Components δ (ω × List OffsetMap) :=
  ⟨parts.client.logging, parts.discoverer.besides (List OffsetMap)⟩

structure Performed where
  action : SessionAction
  /-- The phase in which it was performed. -/
  phase : Phase
  /-- The checkpoint and the bytes of the snapshot that ended. -/
  returned : Option (UInt64 × Bytes) := none
  /-- The checkpoint whose completion came to its end. -/
  completed : Option UInt64 := none
  /-- The requests to commit positions, in order. -/
  committed : List OffsetMap := []

abbrev Journal := List Performed

/-- The last that was seen of the checkpoint `id` is that the snapshot of `copied` was returned for it:
after that no snapshot was, and no positions were committed for it. -/
def Journal.Awaits (journal : Journal) (id : UInt64) (copied : OffsetState) : Prop :=
  ∃ earlier x later, journal = earlier ++ x :: later ∧
    x.returned = some (id, Snapshot.write copied) ∧
    ∀ y ∈ later, (∀ bytes, y.returned ≠ some (id, bytes)) ∧
      (y.completed = some id → y.committed = [])

/-- The completion of the checkpoint `id` began in a phase in which the connector was not asked to stop,
and before anyone asked for it. -/
def Journal.Began (journal : Journal) (id : UInt64) : Prop :=
  ∃ earlier x later, journal = earlier ++ x :: later ∧
    x.action = .beginCompletion id ∧ x.phase.isStopping = false ∧
    ∀ y ∈ earlier, y.action ≠ .cancel ∧ y.action ≠ .close

def Session.returned? (s : Session δ ω) : SessionAction → Option (UInt64 × Bytes)
  | .endSnapshot place =>
    match s.snapshots[place]? with
    | some (id, some copied) => some (id, (s.connector.endSnapshot id copied).1)
    | _ => none
  | _ => none

/-- The checkpoint whose completion an action brings to its end. -/
def Session.completed? (s : Session δ ω) : SessionAction → Option UInt64
  | .commitPending place => s.completions[place]?
  | _ => none

/-- A session and what was seen of its checkpoints. -/
structure CheckpointTrace (δ ω : Type) where
  session : Session δ (ω × List OffsetMap)
  journal : Journal := []

namespace CheckpointTrace

def start (c : Connector δ) (w : ω) : CheckpointTrace δ ω := { session := Session.start c (w, []) }

variable [Libraries]

def performed (parts : Components δ ω) (t : CheckpointTrace δ ω) (a : SessionAction) : Performed where
  action := a
  phase := t.session.connector.phase
  returned := t.session.returned? a
  completed := t.session.completed? a
  committed := (t.session.perform parts.logging a).world.2.drop t.session.world.2.length

def perform (parts : Components δ ω) (t : CheckpointTrace δ ω) (a : SessionAction) :
    CheckpointTrace δ ω :=
  ⟨t.session.perform parts.logging a, t.journal ++ [t.performed parts a]⟩

def performAll (parts : Components δ ω) (t : CheckpointTrace δ ω) (actions : List SessionAction) :
    CheckpointTrace δ ω :=
  actions.foldl (perform parts) t

end CheckpointTrace

end CheckpointedLog
