import CheckpointedLog.Proofs.Connector.Interleaving
import CheckpointedLog.Proofs.Connector.Operations
import CheckpointedLog.Proofs.Connector.Recovery

/-!
Runs that are played on a clock are sequences of critical sections, in a world that others may move. So
what holds of all such sequences holds of a run that is played: against a broker in memory it emits the
log of each partition without gaps and repetitions, and keeps the offset of the last record.
-/
namespace CheckpointedLog

namespace Activity

variable {σ ρ ο α : Type} {P Q : List ο → σ → Prop} {p : Activity σ ρ ο} {stop : σ → σ}

/-- The steps of an activity and a stop preserve `P`, relative to what was emitted so far, and at the end
it gives `Q`. -/
structure Keeps (p : Activity σ ρ ο) (stop : σ → σ) (P Q : List ο → σ → Prop) : Prop where
  acts : ∀ {now seen s s' emitted}, P seen s → p now s = .acts s' emitted →
    P (seen ++ emitted.toList) s'
  ends : ∀ {now seen s s' r}, P seen s → p now s = .ends s' r → Q seen s'
  stop : ∀ {seen s}, P seen s → P seen (stop s)
  cut : ∀ {seen s}, P seen s → Q seen s

theorem Keeps.follow (hp : Keeps p stop P Q) {events : List (TimedEvent σ α)}
    (hevents : ∀ e ∈ events, ∀ seen s, P seen s → P seen (e.happen s).2) (stopAfter : Option ℕ)
    (fuel now count : ℕ) {seen : List ο} {s : σ} (h : P seen s) :
    let b := p.follow stopAfter stop fuel now count events s
    Q (seen ++ b.emissions.map Prod.snd) b.state := by
  -- The induction is on the number of steps that are left; what was emitted before goes along.
  induction fuel generalizing now count events seen s with
  | zero => simpa only [Activity.follow, List.map_nil, List.append_nil] using hp.cut h
  | succ fuel ih =>
    simp only [Activity.follow]
    split
    next s' r hr => simpa only [List.map_nil, List.append_nil] using hp.ends h hr
    next s' hr =>
      have hnext := hp.acts h hr
      rw [Option.toList_none, List.append_nil] at hnext
      exact ih hevents now count hnext
    next s' o hr =>
      have hnext : P (seen ++ [o]) (afterEmission stopAfter stop (count + 1) s') := by
        unfold afterEmission
        split
        · exact hp.stop (hp.acts h hr)
        · exact hp.acts h hr
      simpa only [Playback.emitted, List.map_cons, List.append_assoc, List.singleton_append] using
        ih hevents now (count + 1) hnext
    next wake hr =>
      split
      · exact ih hevents wake count h
      next e rest =>
        obtain ⟨he, hrest⟩ := List.forall_mem_cons.mp hevents
        split
        · exact ih hrest (max now e.time) count (he _ _ h)
        · exact ih hevents wake count h

/-- What steps, stops and events preserve holds of everything that is played. -/
theorem Keeps.play (hp : Keeps p stop P Q) {events : List (TimedEvent σ α)}
    (hevents : ∀ e ∈ events, ∀ seen s, P seen s → P seen (e.happen s).2) (stopAfter : Option ℕ)
    (deadline : ℕ) {s : σ} (h : P [] s) :
    let b := p.play stopAfter stop events deadline s
    Q (b.emissions.map Prod.snd) b.state := by
  refine hp.follow (α := Option α) (fun e he seen s hs => ?_) stopAfter stepLimit 0 0 h
  -- The last event is the stop at the end.
  rcases List.mem_append.mp he with hmem | hlast
  · obtain ⟨e', he', rfl⟩ := List.mem_map.mp hmem
    exact hevents e' he' seen s hs
  · obtain rfl := List.mem_singleton.mp hlast
    exact hp.stop hs

end Activity

namespace Session

variable {δ ω : Type}

theorem records_stepFetch (client : BrokerClient ω) (now : ℕ) (f : Fetcher) (s : Session δ ω) :
    (s.stepFetch client now f).history.records =
      s.history.records ++ (s.toConnectorRun.stepFetch client now f).2.toList := by
  have hstep := FetchLoop.step_cases client now s.fetch f s.world
  change FetchHistory.records (_ ++ _) = _
  rw [FetchHistory.records_append]
  exact congrArg (s.history.records ++ ·) hstep.records_event?

theorem records_stepDiscovery (d : Discoverer δ ω) (now : ℕ) (l : DiscoveryLoop) (s : Session δ ω) :
    (s.stepDiscovery d now l).history.records = s.history.records := by
  change FetchHistory.records (_ ++ _) = _
  rw [FetchHistory.records_append]
  cases l.stage <;> exact List.append_nil _

variable [Libraries] {parts : Components δ ω} {R : ω → ω → Prop} {s : Session δ ω}
  {isRunning isRunning' : Bool} {seen new : List Record} {r r' : ConnectorRun δ ω}

/-- A run that comes about from a session, with what was emitted on the way; whether it still goes on is
known. -/
def Played (parts : Components δ ω) (R : ω → ω → Prop) (s : Session δ ω) (isRunning : Bool)
    (seen : List Record) (r : ConnectorRun δ ω) : Prop :=
  ∃ t, Interleaves parts R (fun _ _ => True) s t ∧ t.toConnectorRun = r ∧ t.isRunning = isRunning ∧
    t.history.records = s.history.records ++ seen

theorem Played.perform (h : s.Played parts R isRunning seen r) (a : SessionAction)
    (ha : ∀ t : Session δ ω, t.toConnectorRun = r → t.isRunning = isRunning →
      (t.perform parts a).toConnectorRun = r' ∧ (t.perform parts a).isRunning = isRunning' ∧
        (t.perform parts a).history.records = t.history.records ++ new) :
    s.Played parts R isRunning' (seen ++ new) r' := by
  obtain ⟨t, ht, hr, hrunning, hseen⟩ := h
  obtain ⟨hr', hrunning', hnew⟩ := ha t hr hrunning
  exact ⟨t.perform parts a, ht.acted trivial, hr', hrunning', by rw [hnew, hseen, List.append_assoc]⟩

/-- What a run does next is a step of the fetch loop or one of discovery. -/
theorem Played.acts {now : ℕ} {emitted : Option Record} (h : s.Played parts R true seen r)
    (hr : ConnectorRun.activity parts now r = .acts r' emitted) :
    s.Played parts R true (seen ++ emitted.toList) r' := by
  unfold ConnectorRun.activity at hr
  split at hr
  · cases hr
  next f hf =>
    unfold ConnectorRun.next at hr
    split at hr
    · cases hr
    simp only at hr
    split at hr
    · obtain ⟨rfl, rfl⟩ := Progress.acts.inj hr
      refine h.perform (.fetch now) fun t ht hrunning => ?_
      subst ht
      simp only [Session.perform, hrunning, hf]
      exact ⟨rfl, hrunning, records_stepFetch parts.client now f t⟩
    split at hr
    · cases hr
    next l hl =>
      split at hr
      · obtain ⟨rfl, rfl⟩ := Progress.acts.inj hr
        refine h.perform (.discover now) fun t ht hrunning => ?_
        subst ht
        simp only [Session.perform, hrunning, hl]
        refine ⟨rfl, hrunning, ?_⟩
        rw [records_stepDiscovery, Option.toList_none, List.append_nil]
      · cases hr

theorem Played.ends {now : ℕ} {result : Except SourceError Unit} (h : s.Played parts R true seen r)
    (hr : ConnectorRun.activity parts now r = .ends r' result) :
    ∃ isRunning, s.Played parts R isRunning seen r' := by
  unfold ConnectorRun.activity at hr
  split at hr
  · exact ⟨true, (Progress.ends.inj hr).1 ▸ h⟩
  unfold ConnectorRun.next at hr
  split at hr
  next result hresult =>
    obtain ⟨rfl, -⟩ := Progress.ends.inj hr
    refine ⟨false, ?_⟩
    rw [← List.append_nil seen]
    refine h.perform .finish fun t ht hrunning => ?_
    subst ht
    simp only [Session.perform, hrunning, hresult]
    exact ⟨rfl, trivial, (List.append_nil _).symm⟩
  next =>
    simp only at hr
    split at hr
    · cases hr
    split at hr
    · cases hr
    · split at hr <;> cases hr

/-- A snapshot that nothing interrupts is one operation of the connector. -/
theorem perform_snapshot (parts : Components δ ω) {id : UInt64} {result : Except SourceError Bytes}
    {c : Connector δ} (h : s.connector.snapshot id = (result, c)) :
    let t := s.performAll parts [.beginSnapshot id, .copySnapshot s.snapshots.length,
      .endSnapshot s.snapshots.length]
    t.toConnectorRun = { s.toConnectorRun with connector := c } ∧ t.isRunning = s.isRunning ∧
      t.history.records = s.history.records := by
  unfold Connector.snapshot at h
  split at h
  next e c₁ hbegin =>
    obtain ⟨-, rfl⟩ := Prod.mk.inj h
    obtain rfl := Connector.beginSnapshot_error hbegin
    have hnone : s.snapshots[s.snapshots.length]? = none := List.getElem?_eq_none (Nat.le_refl _)
    simp only [performAll, List.foldl_cons, List.foldl_nil, Session.perform, hbegin, copySnapshot,
      endSnapshot, hnone, and_self]
  next c₁ hbegin =>
    obtain ⟨-, ⟨f, hf⟩, rfl⟩ := Connector.beginSnapshot_ok hbegin
    obtain ⟨-, rfl⟩ := Prod.mk.inj h
    -- The snapshot is the last one under way, and it stays there until it ends.
    have hwaits : (s.snapshots ++ [(id, none)])[s.snapshots.length]? = some (id, none) :=
      List.getElem?_concat_length
    have hcopied : ((s.snapshots ++ [(id, none)]).set s.snapshots.length (id, some f.offsets))[
        s.snapshots.length]? = some (id, some f.offsets) := by
      rw [List.getElem?_set_self]
      rw [List.length_append, List.length_singleton]
      omega
    simp only [performAll, List.foldl_cons, List.foldl_nil, Session.perform, hbegin, copySnapshot,
      endSnapshot, hwaits, hf, hcopied]
    refine ⟨rfl, trivial, ?_⟩
    rw [FetchHistory.records_append]
    exact List.append_nil _

/-- Nor is there more to the completion of a checkpoint that nothing interrupts. -/
theorem perform_notifyComplete (parts : Components δ ω) {id : UInt64} {result : Except SourceError Unit}
    {c : Connector δ} {w : ω} (h : s.connector.notifyComplete parts.client id s.world = (result, c, w)) :
    let t := s.performAll parts [.beginCompletion id, .commitPending s.completions.length]
    t.toConnectorRun = { s.toConnectorRun with connector := c, world := w } ∧
      t.isRunning = s.isRunning ∧ t.history.records = s.history.records := by
  unfold Connector.notifyComplete at h
  cases hanswer : s.connector.completionAnswer? with
  | some answer =>
    rw [hanswer] at h
    obtain ⟨-, rfl, rfl⟩ := Prod.mk.inj h
    have hnone : s.completions[s.completions.length]? = none := List.getElem?_eq_none (Nat.le_refl _)
    simp only [performAll, List.foldl_cons, List.foldl_nil, Session.perform, hanswer, commitPending, hnone,
      and_self]
  | none =>
    rw [hanswer] at h
    obtain ⟨-, hcommitted⟩ := Prod.mk.inj h
    have hplace : (s.completions ++ [id])[s.completions.length]? = some id := List.getElem?_concat_length
    simp only [performAll, List.foldl_cons, List.foldl_nil, Session.perform, hanswer, commitPending, hplace,
      hcommitted, and_self]

end Session

/-- What happens from outside while a run is played. -/
inductive RunCall where
  | snapshot (id : UInt64)
  | notifyComplete (id : UInt64)
  | cancel
  | close
  | change (c : BrokerChange)

def RunCall.happen [Libraries] (r : ConnectorRun BrokerDiscoverer SharedBroker) :
    RunCall → ConnectorRun BrokerDiscoverer SharedBroker
  | snapshot id => { r with connector := (r.connector.snapshot id).2 }
  | notifyComplete id =>
    let (_, c, w) := r.connector.notifyComplete SharedBroker.client id r.world
    { r with connector := c, world := w }
  | cancel => r.cancel
  | close =>
    let (_, c, w) := r.connector.close SharedBroker.components r.world
    { r with connector := c, world := w }
  | change c => { r with world := { r.world with broker := r.world.broker.change c } }

namespace Session

variable [Libraries] {s : Session BrokerDiscoverer SharedBroker} {isRunning : Bool} {seen : List Record}
  {r : ConnectorRun BrokerDiscoverer SharedBroker} {α : Type}

theorem Played.call (h : s.Played SharedBroker.components SharedBroker.Grows isRunning seen r)
    (call : RunCall) :
    s.Played SharedBroker.components SharedBroker.Grows isRunning seen (call.happen r) := by
  obtain ⟨t, ht, rfl, hrunning, hseen⟩ := h
  cases call with
  | snapshot id =>
    obtain ⟨hrun, hrunning', hrecords⟩ := perform_snapshot SharedBroker.components rfl
    exact ⟨_, ht.performAll fun _ _ _ => trivial, hrun, hrunning'.trans hrunning, hrecords.trans hseen⟩
  | notifyComplete id =>
    obtain ⟨hrun, hrunning', hrecords⟩ := perform_notifyComplete SharedBroker.components rfl
    exact ⟨_, ht.performAll fun _ _ _ => trivial, hrun, hrunning'.trans hrunning, hrecords.trans hseen⟩
  | cancel => exact ⟨_, ht.acted (a := .cancel) trivial, rfl, hrunning, hseen⟩
  | close => exact ⟨_, ht.acted (a := .close) trivial, rfl, hrunning, hseen⟩
  | change c =>
    have hgrows : t.world.Grows { t.world with broker := t.world.broker.change c } :=
      ⟨t.world.broker.change_extends c, t.world.broker.change_committed c⟩
    exact ⟨_, ht.moved hgrows, rfl, hrunning, hseen⟩

theorem keeps_played (s : Session BrokerDiscoverer SharedBroker) :
    Activity.Keeps (ConnectorRun.activity SharedBroker.components) ConnectorRun.cancel
      (s.Played SharedBroker.components SharedBroker.Grows true)
      (fun seen r => ∃ isRunning, s.Played SharedBroker.components SharedBroker.Grows isRunning seen r) where
  acts := Played.acts
  ends := Played.ends
  stop h := h.call .cancel
  cut h := ⟨true, h⟩

/-- The records of a partition are consecutive, and the last one is where fetching is. -/
theorem Delivering.stretch_recordsOf {b : MemoryBroker} (h : s.Delivering b)
    (hfits : s.world.broker.Fits) (p : Partition) :
    (∃ first, Stretch (s.world.broker.log p) p first (s.recordsOf p)) ∧
      ∀ r, (s.recordsOf p).getLast? = some r →
        s.connector.currentState.get? p = some (.concrete r.offset) := by
  rw [h.recordsOf_eq hfits]
  rcases h.stage with u | ⟨f, o⟩
  · rw [u.history]
    refine ⟨⟨0, .nil 0⟩, fun r hr => ?_⟩
    cases hr
  · have hdelivery := o.trace.2 hfits
    have hentry : f.offsets.get? p = FetchHistory.entry s.connector.subscribed s.history p :=
      hdelivery.regular.consistent.entry p
    rw [Connector.currentState_of_fetcher o.fetcher, hentry, FetchHistory.entry]
    cases hlast : (s.history.recordsFrom p).getLast? with
    | none =>
      rw [List.getLast?_eq_none_iff.mp hlast]
      refine ⟨⟨0, .nil 0⟩, fun r hr => ?_⟩
      cases hr
    | some last =>
      obtain ⟨first, -, hstretch⟩ := hdelivery.stretch_of_getLast? hlast
      refine ⟨⟨first, hstretch⟩, fun r hr => ?_⟩
      obtain rfl := Option.some.inj hr
      rfl

/-- A run that is played against a broker in memory, with any calls and appends at any times and with a
stop after any record: what is emitted of each partition goes on from what was emitted before as the log
does, and the last record is the one whose offset is kept. -/
theorem play_emits_log {config : SourceConfig} {index count : UInt64} {c : Connector BrokerDiscoverer}
    {w : SharedBroker} {earlier : List SessionAction}
    (hc : Connector.create config index count = .ok c) (hw : w.broker.CommitsPositions)
    (hs : s = (start c w).performAll SharedBroker.components earlier) (hrunning : s.isRunning = true)
    {events : List (TimedEvent (ConnectorRun BrokerDiscoverer SharedBroker) α)}
    (hevents : ∀ e ∈ events, ∃ call : RunCall, ∀ r, (e.happen r).2 = call.happen r)
    (stopAfter : Option ℕ) (deadline : ℕ) :
    let b := (ConnectorRun.activity SharedBroker.components).play stopAfter ConnectorRun.cancel events
      deadline s.toConnectorRun
    b.state.world.broker.Fits → ∀ p : Partition,
      let records := s.recordsOf p ++ (b.emissions.map Prod.snd).filter fun r => r.partition = p
      (∃ first, Stretch (b.state.world.broker.log p) p first records) ∧
        ∀ r, records.getLast? = some r →
          b.state.connector.currentState.get? p = some (.concrete r.offset) := by
  intro b hfits p
  have hstart : s.Played SharedBroker.components SharedBroker.Grows true [] s.toConnectorRun :=
    ⟨s, .refl, rfl, hrunning, (List.append_nil _).symm⟩
  obtain ⟨isRunning, t, ht, hrun, -, hseen⟩ := s.keeps_played.play (fun e he seen r hr => by
    obtain ⟨call, hcall⟩ := hevents e he
    rw [hcall]
    exact hr.call call) stopAfter deadline hstart
  have hdelivering : t.Delivering w.broker :=
    (hs ▸ delivering_of_created hc hw earlier : s.Delivering w.broker).of_moves
      (FetchTrace.Delivery.law w.broker) ht
  have hrecords : t.recordsOf p =
      s.recordsOf p ++ (b.emissions.map Prod.snd).filter fun r => r.partition = p := by
    rw [recordsOf, hseen, List.filter_append]
    rfl
  rw [← hrun] at hfits ⊢
  rw [← hrecords]
  exact hdelivering.stretch_recordsOf hfits p

end Session

end CheckpointedLog

namespace CheckpointedLog.Session

open scoped Pattern

/-- A third record is appended after the first two were emitted. -/
example :
    let p : Partition := ⟨"t", 0⟩
    let broker := ((MemoryBroker.ofMaxBatch 2).createTopic "t" 1).append p [[10], [11]]
    let c : Connector BrokerDiscoverer :=
      { config := { topics := .list ["t"], startup := .earliest }, subtask := .single }
    let s := (start c ⟨broker, []⟩).performAll SharedBroker.components [.open, .run]
    let late : TimedEvent (ConnectorRun BrokerDiscoverer SharedBroker) Unit :=
      ⟨7, fun r => ((), RunCall.happen r (.change (.append p [[12]])))⟩
    let b := (ConnectorRun.activity SharedBroker.components).play (some 3) ConnectorRun.cancel [late] 2000
      s.toConnectorRun
    b.emissions.map (fun (_, r) => r.payload) = [[10], [11], [12]] := by
  decide +kernel

end CheckpointedLog.Session
