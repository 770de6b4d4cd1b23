import CheckpointedLog.Broker.Memory
import CheckpointedLog.Connector.CheckpointTrace
import CheckpointedLog.Pattern.Reader
import CheckpointedLog.Proofs.Connector.Session
import CheckpointedLog.Proofs.Fetch.Onward

/-!
Commits. A connector asks its client to commit positions only when a checkpoint completes, and then
exactly those of the snapshot that was last returned for this checkpoint, each snapshot at most once.
-/
namespace CheckpointedLog

variable {δ ω : Type}

/-- Apart from commits, nothing that a connector does is noted. -/
theorem Components.logging_moves (parts : Components δ ω) :
    parts.logging.Moves fun w w' => w'.2 = w.2 where
  refl _ := rfl
  trans h h' := h'.trans h
  start _ _ := rfl
  discover _ _ := rfl
  mark _ _ _ := rfl
  closeDiscoverer _ _ := rfl
  close _ := rfl

/-- Every client satisfies the law that fetching only goes forward. -/
theorem FetchTrace.Onward.law (parts : Components δ ω) :
    FetchLaw parts (fun _ => True) (fun s t => t.Consistent s ∧ t.Onward) fun _ _ => True where
  moves := parts.movesAnywhere
  fresh _ _ := trivial
  begin {w s} settings _ _ := ⟨.begin ⟨settings, s, false⟩ w, .begin _ w⟩
  step {_ t} o now :=
    have hstep := FetchLoop.step_cases parts.client now t.run.loop t.run.fetcher t.run.world
    ⟨o.1.of_step hstep, o.2.of_step o.1 hstep⟩
  copy o := ⟨o.1.copied, o.2.copy⟩
  add o found := ⟨o.1.added .earliest found, o.2.add o.1 .earliest found⟩
  cancel o := ⟨o.1.cancelled, o.2.cancelled⟩
  move o _ := ⟨o.1.inWorld _, o.2.inWorld _⟩
  commit o _ _ := ⟨o.1.inWorld _, o.2.inWorld _⟩

variable [Libraries]

namespace Session

theorem Sound.copied_of_snapshots {J : ω → Prop} {I : OffsetState → FetchTrace ω → Prop}
    {s : Session δ ω} (h : s.Sound J I) {id : UInt64} {copied : OffsetState}
    (hs : (id, some copied) ∈ s.snapshots) : .copied copied ∈ s.history := by
  rcases h.stage with u | ⟨f, o⟩
  · rw [u.snapshots] at hs
    cases hs
  · exact o.snapshots id copied hs

/-- What is pending after an action was pending before and no snapshot was returned for it, or it is what
the action returned. -/
theorem Step.pending {parts : Components δ ω} {G : ω → ω → Prop} {s s' : Session δ ω}
    {a : SessionAction} (hstep : s.Step parts G a s') {id : UInt64} {offsets : OffsetMap}
    (h : s'.connector.pending.get? id = some offsets) :
    (s.connector.pending.get? id = some offsets ∧
      (s.connector.config.commitMode = .onCheckpoints → ∀ bytes, s.returned? a ≠ some (id, bytes))) ∨
    ∃ copied, s.connector.config.commitMode = .onCheckpoints ∧ (id, some copied) ∈ s.snapshots ∧
      s.returned? a = some (id, Snapshot.write copied) ∧ offsets = OffsetState.concreteOffsets copied := by
  cases hstep with
  | @snapshotEnded place other copied hplace =>
    have hreturned : s.returned? (.endSnapshot place) = some (other, Snapshot.write copied) := by
      simp only [returned?, hplace]
      rfl
    simp only [Connector.endSnapshot] at h
    split at h
    next hmode =>
      rcases PendingCheckpoints.get?_remember h with ⟨rfl, rfl⟩ | ⟨hne, h⟩
      · exact Or.inr ⟨copied, hmode, List.mem_of_getElem? hplace, hreturned, rfl⟩
      · refine Or.inl ⟨h, fun _ bytes hbytes => hne ?_⟩
        exact (Prod.mk.inj (Option.some.inj (hbytes.symm.trans hreturned))).1
    next hmode => exact Or.inl ⟨h, fun hmode' => absurd hmode' hmode⟩
  | idle hidle =>
    refine Or.inl ⟨h, fun _ bytes hbytes => ?_⟩
    unfold returned? at hbytes
    split at hbytes
    next place =>
      split at hbytes
      next other copied hplace => exact hidle place other copied rfl hplace
      next => cases hbytes
    next => cases hbytes
  | restored ha =>
    refine Or.inl ⟨h, fun _ bytes hbytes => ?_⟩
    unfold returned? at hbytes
    split at hbytes
    · cases ha
    · cases hbytes
  | @completed _ done =>
    obtain ⟨-, -, hkept⟩ := s.connector.pending.complete_cases done
    exact Or.inl ⟨hkept id offsets h, fun _ _ => (Option.some_ne_none _).symm⟩
  | opened | openFailed | begun | fetched | tracked | discoveryEnded | searched | finished | failed
  | snapshotBegun | copied | completionBegun | cancelled | closed =>
    exact Or.inl ⟨h, fun _ _ => (Option.some_ne_none _).symm⟩

variable {parts : Components δ ω} {s s' : Session δ (ω × List OffsetMap)} {a : SessionAction}

/-- A completion that is under way after an action was under way before, or the action began it. -/
theorem Step.completions {parts : Components δ ω} {G : ω → ω → Prop} {s s' : Session δ ω}
    {a : SessionAction} (hstep : s.Step parts G a s') {id : UInt64} (h : id ∈ s'.completions) :
    id ∈ s.completions ∨ a = .beginCompletion id ∧ s.connector.phase.isStopping = false := by
  cases hstep with
  | completionBegun _ hlive =>
    refine (List.mem_append.mp h).imp_right fun h => ?_
    obtain rfl := List.mem_singleton.mp h
    exact ⟨rfl, hlive⟩
  | completed => exact Or.inl (List.mem_of_mem_eraseIdx h)
  | idle | restored | opened | openFailed | begun | fetched | tracked | discoveryEnded | searched
  | finished | failed | snapshotBegun | copied | snapshotEnded | cancelled | closed =>
    exact Or.inl h

/-- An action asks for no commit, or it ends the completion of a checkpoint that is pending and asks for
one. -/
theorem Step.log (h : s.Step parts.logging (fun w w' => w'.2 = w.2) a s') :
    s'.world.2 = s.world.2 ∨
      ∃ place id offsets positions, a = .commitPending place ∧ s.completions[place]? = some id ∧
        s.connector.CompletesWith id offsets positions ∧
        s'.connector.pending.get? id = none ∧ s'.world.2 = s.world.2 ++ [positions] := by
  cases h with
  | @completed place id _ hplace hw =>
    obtain ⟨-, hnone, -⟩ := s.connector.pending.complete_cases id
    rcases hw with rfl | ⟨offsets, positions, hcompletes, rfl⟩
    · exact Or.inl rfl
    · exact Or.inr ⟨place, id, offsets, positions, rfl, hplace, hcompletes, hnone, rfl⟩
  | @fetched now f hrun hf =>
    -- Neither resolving nor polling asks for a commit.
    have hstep := FetchLoop.step_cases parts.logging.client now s.fetch f s.world
    have moves := parts.logging_moves
    have hsame := hstep.moves (G := fun w w' => w'.2 = w.2) moves.refl moves.trans
      (fun _ _ _ _ => rfl) fun _ _ _ => rfl
    exact Or.inl hsame
  | opened _ hmove | openFailed hmove | searched _ _ hmove | closed hmove => exact Or.inl hmove
  | idle | restored | begun | tracked | discoveryEnded | finished | failed | snapshotBegun | copied
  | snapshotEnded | completionBegun | cancelled => exact Or.inl rfl

end Session

namespace Journal

omit [Libraries] in
theorem Awaits.of_returned {journal : Journal} {x : Performed} {id : UInt64}
    {copied : OffsetState} (h : x.returned = some (id, Snapshot.write copied)) :
    Awaits (journal ++ [x]) id copied :=
  ⟨journal, x, [], rfl, h, fun _ hy => absurd hy List.not_mem_nil⟩

omit [Libraries] in
theorem Awaits.append {journal : Journal} {id : UInt64} {copied : OffsetState}
    (h : Awaits journal id copied) {y : Performed} (hreturned : ∀ bytes, y.returned ≠ some (id, bytes))
    (hcommitted : y.completed = some id → y.committed = []) :
    Awaits (journal ++ [y]) id copied := by
  obtain ⟨earlier, x, later, rfl, hx, hlater⟩ := h
  refine ⟨earlier, x, later ++ [y], by simp, hx, fun z hz => ?_⟩
  rcases List.mem_append.mp hz with hz | hz
  · exact hlater z hz
  · obtain rfl := List.mem_singleton.mp hz
    exact ⟨hreturned, hcommitted⟩

omit [Libraries] in
theorem Began.append {journal : Journal} {id : UInt64} (h : Began journal id) (y : Performed) :
    Began (journal ++ [y]) id := by
  obtain ⟨earlier, x, later, rfl, hx⟩ := h
  exact ⟨earlier, x, later ++ [y], by simp, hx⟩

end Journal

namespace CheckpointTrace

variable {parts : Components δ ω} {t : CheckpointTrace δ ω} {a : SessionAction}

/-- An action asks for one commit at most, and only at the end of the completion of a checkpoint that is
pending. -/
theorem performed_committed (parts : Components δ ω) (t : CheckpointTrace δ ω) (a : SessionAction) :
    (t.performed parts a).committed = [] ∨
      ∃ place id offsets positions, a = .commitPending place ∧
        t.session.completions[place]? = some id ∧
        t.session.connector.CompletesWith id offsets positions ∧
        (t.perform parts a).session.connector.pending.get? id = none ∧
        (t.performed parts a).committed = [positions] := by
  have hlog := (Session.perform_step parts.logging_moves t.session a).log
  rcases hlog with h | ⟨place, id, offsets, positions, ha, hplace, hc, hnone, h⟩
  · left
    rw [performed, h, List.drop_length]
  · refine Or.inr ⟨place, id, offsets, positions, ha, hplace, hc, hnone, ?_⟩
    rw [performed, h, List.drop_left]

/-- What holds of a session and its journal at all times. -/
structure Kept (t : CheckpointTrace δ ω) : Prop where
  sound : t.session.Sound (fun _ => True) fun s t => t.Consistent s ∧ t.Onward
  stopped : ∀ x ∈ t.journal, x.action = .cancel ∨ x.action = .close →
    t.session.connector.phase.isStopping = true
  pending : ∀ id offsets, t.session.connector.pending.get? id = some offsets →
    ∃ copied, t.session.connector.config.commitMode = .onCheckpoints ∧
      t.journal.Awaits id copied ∧ .copied copied ∈ t.session.history ∧
      offsets = OffsetState.concreteOffsets copied
  completions : ∀ id ∈ t.session.completions, t.journal.Began id

namespace Kept

theorem start {config : SourceConfig} {index count : UInt64} {c : Connector δ}
    (hc : Connector.create config index count = .ok c) (w : ω) : (start c w).Kept := by
  obtain ⟨hvalid, t, -, rfl⟩ := Connector.create_ok hc
  refine ⟨?_, nofun, nofun, nofun⟩
  exact Session.Sound.start hvalid nofun rfl rfl (fun _ => rfl) trivial

theorem perform (k : t.Kept) (parts : Components δ ω) (a : SessionAction) :
    (t.perform parts a).Kept := by
  have law := FetchTrace.Onward.law parts.logging
  have hstep := Session.perform_step parts.logging_moves t.session a
  constructor
  case sound => exact k.sound.perform law a
  case stopped =>
    intro x hx haction
    rcases List.mem_append.mp hx with hx | hx
    · exact hstep.isStopping (k.stopped x hx haction)
    obtain rfl := List.mem_singleton.mp hx
    rcases haction with rfl | rfl
    · exact Phase.isStopping_stop t.session.connector.phase
    · have hclosed := Connector.close_phase parts.logging t.session.connector t.session.world
      change (t.session.connector.close parts.logging t.session.world).2.1.phase.isStopping = true
      rw [hclosed]
      rfl
  case pending =>
    intro id offsets h
    have hconfig := hstep.base.1
    rcases hstep.pending h with ⟨hbefore, hreturned⟩ | ⟨copied, hmode, hcopied, hreturned, he⟩
    · obtain ⟨copied, hmode, hawaits, hcopied, he⟩ := k.pending id offsets hbefore
      refine ⟨copied, (congrArg SourceConfig.commitMode hconfig).trans hmode,
        hawaits.append (hreturned hmode) fun ha => ?_, hstep.history_subset hcopied, he⟩
      -- A commit would have taken the checkpoint from those that are pending.
      rcases t.performed_committed parts a with
        hnone | ⟨place, other, _, _, rfl, hplace, -, hgone, -⟩
      · exact hnone
      · obtain rfl := Option.some.inj (hplace.symm.trans ha)
        cases hgone.symm.trans h
    · exact ⟨copied, (congrArg SourceConfig.commitMode hconfig).trans hmode,
        .of_returned hreturned, hstep.history_subset (k.sound.copied_of_snapshots hcopied), he⟩
  case completions =>
    intro id h
    rcases hstep.completions h with h | ⟨rfl, hlive⟩
    · exact (k.completions id h).append _
    -- A completion that goes on has found a phase in which nobody had asked to stop.
    · refine ⟨t.journal, t.performed parts _, [], rfl, rfl, hlive, fun y hy => ?_⟩
      have hstopped := mt (k.stopped y hy) (Bool.eq_false_iff.mp hlive)
      exact not_or.mp hstopped

theorem performAll (k : t.Kept) (parts : Components δ ω) (actions : List SessionAction) :
    (t.performAll parts actions).Kept := by
  induction actions generalizing t with
  | nil => exact k
  | cons a actions ih => exact ih (k.perform parts a)

theorem lt_of_emitted (k : t.Kept) {before after : FetchHistory} {copied : OffsetState}
    (hsplit : t.session.history = before ++ .copied copied :: after) {p : Partition} {last : Int64}
    (hlast : copied.get? p = some (.concrete last)) (hmin : last ≠ Int64.minValue)
    (hmax : last ≠ Int64.maxValue) {r : Record} (hr : r ∈ after.recordsFrom p) : last < r.offset := by
  rcases k.sound.stage with u | ⟨f, o⟩
  · rw [u.history] at hsplit
    simp at hsplit
  · exact (o.trace.2.copies before copied after hsplit p last hlast hmin hmax).records r hr

end Kept

/-- A request to commit `positions`, made by the completion of the checkpoint `id` at a place among those
under way, carries the snapshot of `copied`, of which the bytes were returned last for this checkpoint and
which was not committed before. -/
structure Carries (t : CheckpointTrace δ ω) (place : Nat) (id : UInt64) (copied : OffsetState)
    (positions : OffsetMap) : Prop where
  mode : t.session.connector.config.commitMode = .onCheckpoints
  underWay : t.session.completions[place]? = some id
  began : t.journal.Began id
  pending : t.session.connector.pending.contains id = true
  awaits : t.journal.Awaits id copied
  decodes : copied.Countable → copied.Storable → Snapshot.read (Snapshot.write copied) = .ok copied
  nonempty : positions.isEmpty = false
  exact : ∀ p n, positions.get? p = some n ↔
    ∃ last, copied.get? p = some (.concrete last) ∧ n.toInt = last.toInt + 1
  wasCopied : .copied copied ∈ t.session.history

theorem Kept.carries (k : t.Kept) {place : Nat} {id : UInt64} {offsets positions : OffsetMap}
    (hplace : t.session.completions[place]? = some id)
    (hc : t.session.connector.CompletesWith id offsets positions) :
    ∃ copied, t.Carries place id copied positions := by
  obtain ⟨copied, hmode, hawaits, hcopied, rfl⟩ := k.pending id offsets hc.pending
  refine ⟨copied, ?_⟩
  constructor
  case mode => exact hmode
  case underWay => exact hplace
  case began => exact k.completions id (List.mem_of_getElem? hplace)
  case pending => exact SortedMap.contains_eq_true_iff.mpr ⟨_, hc.pending⟩
  case awaits => exact hawaits
  case decodes => exact Snapshot.read_write
  case nonempty =>
    obtain ⟨p, last, hlast⟩ := SortedMap.isEmpty_eq_false_iff.mp hc.nonempty
    obtain ⟨n, hn, -⟩ := Fetcher.exists_of_positionsAfter hc.positions hlast
    exact SortedMap.isEmpty_eq_false_iff.mpr ⟨p, n, hn⟩
  case exact =>
    intro p n
    rw [Fetcher.get?_positionsAfter_iff hc.positions]
    simp only [Position.after?_eq_some_iff]
  case wasCopied => exact hcopied

/-- Whatever is done with a connector, and whoever does it in whatever order: each request to commit
positions is the only one of its action, which ends the completion of a checkpoint, and it carries exactly
the snapshot that was last returned for this checkpoint, for the first time. The completion began before
anyone asked the connector to stop. No record that is emitted after the offsets of this snapshot were
copied lies before the positions, however long the session goes on. -/
theorem commits_carry_snapshots (parts : Components δ ω) {config : SourceConfig}
    {index count : UInt64} {c : Connector δ} (hc : Connector.create config index count = .ok c) (w : ω)
    (actions : List SessionAction) (a : SessionAction) (later : List SessionAction) :
    let t := (start c w).performAll parts actions
    let final := (t.perform parts a).performAll parts later
    ∀ positions ∈ (t.performed parts a).committed,
      (t.performed parts a).committed = [positions] ∧
      ∃ place id copied, a = .commitPending place ∧ t.Carries place id copied positions ∧
        (copied.Storable → ∀ before after : FetchHistory,
          final.session.history = before ++ .copied copied :: after →
            ∀ p n, positions.get? p = some n → ∀ r ∈ after.recordsFrom p, n ≤ r.offset) := by
  intro t final positions hpositions
  have k : t.Kept := (Kept.start hc w).performAll parts actions
  have kfinal : final.Kept := (k.perform parts a).performAll parts later
  rcases t.performed_committed parts a with
    hnone | ⟨place, id, offsets, positions', ha, hplace, hcompletes, -, hone⟩
  · rw [hnone] at hpositions
    cases hpositions
  rw [hone] at hpositions
  obtain rfl := List.mem_singleton.mp hpositions
  obtain ⟨copied, hcarries⟩ := k.carries hplace hcompletes
  refine ⟨hone, place, id, copied, ha, hcarries, fun hstorable before after hsplit p n hn r hr => ?_⟩
  obtain ⟨last, hlast, hnext⟩ := (hcarries.exact p n).mp hn
  have hlow : -1 ≤ last := hstorable p _ hlast
  rw [Int64.le_iff_toInt_le, show (-1 : Int64).toInt = -1 by decide] at hlow
  have hmin : last ≠ Int64.minValue := by
    rintro rfl
    exact absurd hlow (by decide)
  have hmax : last ≠ Int64.maxValue := by
    rintro rfl
    have hlt := n.toInt_lt
    rw [hnext] at hlt
    exact absurd hlt (by decide)
  have hlt := kfinal.lt_of_emitted hsplit hlast hmin hmax hr
  rw [Int64.lt_iff_toInt_lt] at hlt
  rw [Int64.le_iff_toInt_le, hnext]
  exact hlt

end CheckpointTrace

end CheckpointedLog

namespace CheckpointedLog.CheckpointTrace

open scoped Pattern

/-- One of two records was emitted before the snapshot, so that the position of the second is committed. -/
theorem commits_carry_snapshots_within_batch :
    let parts : Components BrokerDiscoverer MemoryBroker :=
      ⟨MemoryBroker.client, BrokerDiscoverer.discoverer MemoryBroker.client⟩
    let c : Connector BrokerDiscoverer :=
      { config := { topics := .list ["t"], startup := .earliest, checkpointing := true }
        subtask := .single }
    let b := ((MemoryBroker.ofMaxBatch 5).createTopic "t" 1).append ⟨"t", 0⟩ [[1], [2]]
    let t := (start c b).performAll parts ([.open, .run, .fetch 0, .fetch 0, .fetch 0, .fetch 0,
      .fetch 0, .fetch 0, .beginSnapshot 7, .copySnapshot 0, .endSnapshot 0, .beginCompletion 7])
    let positions : OffsetMap := SortedMap.empty.insert ⟨"t", 0⟩ 1
    (t.performed parts (.commitPending 0)).committed = [positions] ∧
      ∃ id copied, t.Carries 0 id copied positions := by
  intro parts c b t positions
  have hcreated : Connector.create c.config 0 1 = .ok c := by
    simp only [c]
    rfl
  have hcommitted : (t.performed parts (.commitPending 0)).committed = [positions] := by
    simp only [parts, c, b, t, positions]
    rfl
  clear_value parts c b positions
  obtain ⟨-, place, id, copied, ha, hcarries, -⟩ := commits_carry_snapshots parts hcreated b _
    (.commitPending 0) [] positions (hcommitted ▸ List.mem_singleton_self positions)
  obtain rfl := SessionAction.commitPending.inj ha
  exact ⟨hcommitted, id, copied, hcarries⟩

/-- A completion that waits for what is pending does not notice that the connector is closed meanwhile:
the client is asked to commit after it was closed. -/
theorem commits_after_close :
    let parts : Components BrokerDiscoverer MemoryBroker :=
      ⟨MemoryBroker.client, BrokerDiscoverer.discoverer MemoryBroker.client⟩
    let c : Connector BrokerDiscoverer :=
      { config := { topics := .list ["t"], startup := .earliest, checkpointing := true }
        subtask := .single }
    let b := ((MemoryBroker.ofMaxBatch 5).createTopic "t" 1).append ⟨"t", 0⟩ [[1], [2]]
    let t := (start c b).performAll parts ([.open, .run, .fetch 0, .fetch 0, .fetch 0, .fetch 0,
      .fetch 0, .fetch 0, .beginSnapshot 7, .copySnapshot 0, .endSnapshot 0, .beginCompletion 7,
      .close])
    Connector.create c.config 0 1 = .ok c ∧
      (∃ x ∈ t.journal, x.action = .close) ∧ t.session.connector.phase = .closed ∧
      (t.performed parts (.commitPending 0)).committed = [SortedMap.empty.insert ⟨"t", 0⟩ 1] := by
  intro parts c b t
  refine ⟨?_, ?_, ?_, ?_⟩
  · simp only [c]
    rfl
  · exact ⟨_, List.mem_append_right _ (List.mem_singleton_self _), rfl⟩
  · simp only [parts, c, b, t]
    rfl
  · simp only [parts, c, b, t]
    rfl

end CheckpointedLog.CheckpointTrace
