import CheckpointedLog.Broker.Memory
import CheckpointedLog.Connector.CheckpointTrace
import CheckpointedLog.Pattern.Reader
import CheckpointedLog.Proofs.Connector.Lifecycle

/-!
How often a connector asks its client to close. The connector reaches the client only through its
fetcher, which is there after a successful opening and stays from then on. So closing releases the client
of a connector that was opened, and no other; and it does so once if no two calls that close overlap.
-/
namespace CheckpointedLog

variable {δ ω : Type}

/-- The client in a world that counts how often the client was asked to close. -/
def BrokerClient.counting (client : BrokerClient ω) : BrokerClient (ω × Nat) :=
  { client.besides Nat with
    close := fun w =>
      let (r, v) := client.close w.1
      (r, v, w.2 + 1) }

/-- What a connector works with to which only a client is given. -/
def BrokerClient.components [Libraries] (client : BrokerClient ω) : Components BrokerDiscoverer ω :=
  ⟨client, BrokerDiscoverer.discoverer client⟩

/-- The components in a world that has one more part. -/
def Components.besides (parts : Components δ ω) (α : Type) : Components δ (ω × α) :=
  ⟨parts.client.besides α, parts.discoverer.besides α⟩

/-- The components with a client that counts; the discoverer does not see the count. -/
def Components.counting (parts : Components δ ω) : Components δ (ω × Nat) :=
  ⟨parts.client.counting, parts.discoverer.besides Nat⟩

/-- Neither discovery nor closing changes the other part of the world. -/
theorem Components.besides_moves (parts : Components δ ω) (α : Type) :
    (parts.besides α).Moves fun w w' => w'.2 = w.2 where
  refl _ := rfl
  trans h h' := h'.trans h
  start _ _ := rfl
  discover _ _ := rfl
  mark _ _ _ := rfl
  closeDiscoverer _ _ := rfl
  close _ := rfl

theorem BrokerDiscoverer.subscribed_counting (client : BrokerClient ω) (d : BrokerDiscoverer)
    (w : ω × Nat) :
    d.subscribed client.counting w =
      ((d.subscribed client w.1).1, (d.subscribed client w.1).2, w.2) := by
  have hlist : client.counting.listTopics w =
      ((client.listTopics w.1).1, (client.listTopics w.1).2, w.2) := rfl
  unfold subscribed
  cases d.topics with
  | list names => rfl
  | pattern text =>
    cases d.expression with
    | none => rfl
    | some r =>
      simp only [hlist]
      rcases client.listTopics w.1 with ⟨_ | _, v⟩ <;> rfl

theorem BrokerDiscoverer.discover_counting (client : BrokerClient ω) (d : BrokerDiscoverer)
    (w : ω × Nat) :
    d.discover client.counting w =
      ((d.discover client w.1).1, (d.discover client w.1).2, w.2) := by
  have hlist (names : List String) (v : ω × Nat) : client.counting.listPartitions names v =
      ((client.listPartitions names v.1).1, (client.listPartitions names v.1).2, v.2) := rfl
  unfold discover
  split
  · rfl
  rw [subscribed_counting]
  rcases d.subscribed client w.1 with ⟨_ | names, v⟩
  · rfl
  · cases names with
    | nil => rfl
    | cons name names =>
      simp only [hlist]
      rcases client.listPartitions (name :: names) v with ⟨_ | _, v'⟩ <;> rfl

/-- Only the fetcher asks the client to close, so that it suffices to count there. -/
theorem BrokerClient.components_counting [Libraries] (client : BrokerClient ω) :
    client.components.counting = client.counting.components := by
  have hdiscoverer : (BrokerDiscoverer.discoverer client).besides Nat =
      BrokerDiscoverer.discoverer client.counting := by
    simp only [Discoverer.besides, BrokerDiscoverer.discoverer,
      BrokerDiscoverer.discover_counting]
  simp only [Components.counting, components, hdiscoverer]

namespace LifecycleAction

/-- Whether an action begins to close the connector. -/
def beginsClose : LifecycleAction → Bool
  | session .close | beginClose => true
  | _ => false

/-- Whether an action is a section of a call that closes the connector. -/
def closes : LifecycleAction → Bool
  | session .close | beginClose | continueClose _ => true
  | _ => false

end LifecycleAction

theorem Phase.closed_of_rank_le {p : Phase} (h : closed.rank ≤ p.rank) : p = closed := by
  cases p with
  | closed => rfl
  | created | opened | running | snapshotting | cancelling => exact absurd h (by decide)

theorem Phase.closed_of_stop {p : Phase} (h : p.stop = closed) : p = closed := by
  cases p with
  | closed => rfl
  | created | opened | running | snapshotting | cancelling => cases h

variable [Libraries]

namespace Session

variable {parts : Components δ ω} {a : SessionAction}

omit [Libraries] in
/-- A step of the fetch loop changes nothing besides the world of a client that does not. -/
theorem rest_of_fetched {α : Type} {client : BrokerClient (ω × α)} {now : Nat} {l l' : FetchLoop}
    {f f' : Fetcher} {w w' : ω × α} {r : Option Record} (h : l.Step client now f w l' f' w' r)
    (hresolve : ∀ p o w, (client.resolve p o w).2.2 = w.2)
    (hpoll : ∀ p n timeoutMs w, (client.poll p n timeoutMs w).2.2 = w.2) : w'.2 = w.2 := by
  have htrans {u v w : ω × α} (h : v.2 = u.2) (h' : w.2 = v.2) : w.2 = u.2 := h'.trans h
  exact h.moves (G := fun w w' => w'.2 = w.2) (fun _ => rfl) htrans hpoll hresolve

theorem Step.rest_of_world {α : Type} {s s' : Session δ (ω × α)}
    (h : s.Step (parts.besides α) (fun w w' => w'.2 = w.2) a s') : s'.world.2 = s.world.2 := by
  cases h with
  | completed _ hw =>
    rcases hw with rfl | ⟨offsets, positions, -, rfl⟩
    · rfl
    · rfl
  | fetched =>
    exact rest_of_fetched (FetchLoop.step_cases ..) (fun _ _ _ => rfl) fun _ _ _ _ => rfl
  | opened _ hmove | openFailed hmove | searched _ _ hmove | closed hmove => exact hmove
  | idle | restored | begun | tracked | discoveryEnded | finished | failed | snapshotBegun | copied
  | snapshotEnded | completionBegun | cancelled => rfl

theorem count_perform (parts : Components δ ω) (s : Session δ (ω × Nat)) (ha : a ≠ .close) :
    (s.perform parts.counting a).world.2 = s.world.2 := by
  have hstep := perform_step (parts.besides_moves Nat) s a
  cases a with
  | close => exact absurd rfl ha
  | fetch now =>
    simp only [perform]
    split
    next => exact rest_of_fetched (FetchLoop.step_cases ..) (fun _ _ _ => rfl) fun _ _ _ _ => rfl
    next => rfl
  | restore | restoreRelease | «open» | run | discover | finish | beginSnapshot | copySnapshot
  | endSnapshot | beginCompletion | commitPending | cancel =>
    exact hstep.rest_of_world

/-- The fetcher comes with a successful opening, and it stays. -/
theorem Step.isSome_fetcher {G : ω → ω → Prop} {s s' : Session δ ω} (h : s.Step parts G a s') :
    s'.connector.fetcher.isSome = s.connector.fetcher.isSome ∨
      a = .open ∧ s.connector.phase = .created ∧ s.answer? parts a = some (.ok ()) := by
  cases h with
  | opened hphase _ hopen => exact Or.inr ⟨rfl, hphase, congrArg some hopen⟩
  | fetched _ hf =>
    left
    rw [hf]
    rfl
  | searched _ _ _ hfetcher =>
    left
    rcases hfetcher with ⟨rfl, -⟩ | ⟨rfl, -⟩
    · rfl
    · exact Option.isSome_map
  | tracked | failed | cancelled | closed => exact Or.inl Option.isSome_map
  | idle | restored | openFailed | begun | discoveryEnded | finished | snapshotBegun | copied
  | snapshotEnded | completionBegun | completed => exact Or.inl rfl

theorem Step.closed_before {G : ω → ω → Prop} {s s' : Session δ ω} (h : s.Step parts G a s')
    (ha : a ≠ .close) (hclosed : s'.connector.phase = .closed) : s.connector.phase = .closed := by
  cases h with
  | closed => exact absurd rfl ha
  | failed | cancelled => exact Phase.closed_of_stop hclosed
  | snapshotBegun | copied => exact Phase.of_shift_eq hclosed nofun
  | opened | begun => cases hclosed
  | idle | restored | openFailed | fetched | tracked | discoveryEnded | searched | finished
  | snapshotEnded | completionBegun | completed => exact hclosed

end Session

namespace Lifecycle

/-- What the next section of a call that closes the connector does, as far as the client is concerned. -/
inductive ClosingStep (s : Lifecycle δ (ω × Nat)) (place : Nat) :
    Lifecycle δ (ω × Nat) → Prop where
  | idle : ClosingStep s place s
  | discoverer {t : Lifecycle δ (ω × Nat)} {first : Except SourceError Unit}
      (hplace : s.closing[place]? = some .discoverer)
      (hclosing : t.closing = s.closing.set place (.fetcher first))
      (hphase : t.connector.phase = s.connector.phase)
      (hfetcher : t.connector.fetcher.isSome = s.connector.fetcher.isSome)
      (hcount : t.world.2 = s.world.2) : ClosingStep s place t
  /-- The client is asked to close, if there is a fetcher to ask it. -/
  | fetcher {t : Lifecycle δ (ω × Nat)} {first result : Except SourceError Unit}
      (hplace : s.closing[place]? = some (.fetcher first))
      (hclosing : t.closing = s.closing.set place (.ending result))
      (hphase : t.connector.phase = s.connector.phase)
      (hfetcher : t.connector.fetcher.isSome = s.connector.fetcher.isSome)
      (hcount : t.world.2 = s.world.2 + s.connector.fetcher.isSome.toNat) : ClosingStep s place t
  | ending {result : Except SourceError Unit} (hplace : s.closing[place]? = some (.ending result)) :
      ClosingStep s place { s with
        connector := { s.connector with phase := .closed }, closing := s.closing.eraseIdx place }

omit [Libraries] in
theorem continueClose_step (parts : Components δ ω) (s : Lifecycle δ (ω × Nat)) (place : Nat) :
    s.ClosingStep place (s.continueClose parts.counting place) := by
  unfold continueClose
  split
  next => exact .idle
  next hplace =>
    -- Closing the discoverer is not counted, so that it may be done beside the count.
    obtain ⟨first, d, w, hmove, h⟩ :=
      Connector.closeDiscoverer_moves (parts.besides_moves Nat) s.connector s.world
    have h' : s.connector.closeDiscoverer parts.counting.discoverer s.world =
        (first, { s.connector with discoverer := d }, w) := h
    simp only [h']
    exact .discoverer hplace rfl rfl rfl hmove
  next first hplace =>
    cases hf : s.connector.fetcher with
    | none =>
      simp only [Connector.closeFetcher, hf]
      refine .fetcher hplace rfl rfl rfl ?_
      rw [hf]
      rfl
    | some f =>
      simp only [Connector.closeFetcher, hf]
      refine .fetcher hplace rfl rfl ?_ ?_
      · rw [hf]
        rfl
      · rw [hf]
        rfl
  next result hplace => exact .ending hplace

/-- A call that closes the connector has passed the fetcher. -/
def HasPassed (s : Lifecycle δ ω) : Prop :=
  s.connector.phase = .closed ∨ ∃ result, .ending result ∈ s.closing

/-- What holds of the client at all times: it is asked to close only if there is a fetcher, and when a
call that closes has passed the fetcher, the client was asked. -/
structure Accounted (s : Lifecycle δ (ω × Nat)) : Prop where
  unset : s.connector.fetcher.isSome = false → s.world.2 = 0
  released : s.HasPassed → s.connector.fetcher.isSome = true → 0 < s.world.2

namespace Accounted

variable {s : Lifecycle δ (ω × Nat)}

theorem start {config : SourceConfig} {index count : UInt64} {c : Connector δ}
    (hc : Connector.create config index count = .ok c) (w : ω) : (start c (w, 0)).Accounted := by
  refine ⟨fun _ => rfl, fun h => ?_⟩
  obtain ⟨-, t, -, rfl⟩ := Connector.create_ok hc
  rcases h with h | ⟨result, h⟩
  · cases h
  · cases h

theorem session (k : s.Accounted) (o : s.Orderly) (parts : Components δ ω) {a : SessionAction}
    (ha : a ≠ .close) : (s.perform parts.counting (.session a)).Accounted := by
  have hstep := Session.perform_step parts.counting.movesAnywhere s.toSession a
  have hcount : (s.perform parts.counting (.session a)).world.2 = s.world.2 :=
    s.toSession.count_perform parts ha
  have hpassed (h : (s.perform parts.counting (.session a)).HasPassed) : s.HasPassed :=
    h.imp_left (hstep.closed_before ha)
  constructor
  case unset =>
    intro hnone
    rw [hcount]
    apply k.unset
    rcases hstep.isSome_fetcher with hsame | ⟨-, hphase, -⟩
    · exact hsame.symm.trans hnone
    · rw [o.session.unset hphase]
      rfl
  case released =>
    intro h hsome
    rw [hcount]
    rcases hstep.isSome_fetcher with hsame | ⟨-, hphase, -⟩
    · exact k.released (hpassed h) (hsame.symm.trans hsome)
    -- A connector that opens was never asked to stop, and a call that closes begins by asking.
    · rcases hpassed h with hclosed | ⟨result, hending⟩
      · cases hphase.symm.trans hclosed
      · have hstop := o.closing (List.ne_nil_of_mem hending)
        rw [hphase] at hstop
        cases hstop

omit [Libraries] in
theorem beginClose (k : s.Accounted) : s.beginClose.Accounted := by
  unfold Lifecycle.beginClose
  split
  next => exact k
  next hphase =>
    have hsome : s.connector.cancel.fetcher.isSome = s.connector.fetcher.isSome := Option.isSome_map
    refine ⟨fun hnone => k.unset (hsome.symm.trans hnone), fun h hopened => ?_⟩
    refine k.released ?_ (hsome.symm.trans hopened)
    rcases h with hclosed | ⟨result, hending⟩
    · exact absurd (Phase.closed_of_stop hclosed) hphase
    · rcases List.mem_append.mp hending with hending | hending
      · exact Or.inr ⟨result, hending⟩
      · cases List.mem_singleton.mp hending

omit [Libraries] in
theorem continueClose (k : s.Accounted) (parts : Components δ ω) (place : Nat) :
    (s.continueClose parts.counting place).Accounted := by
  have hstep := continueClose_step parts s place
  generalize s.continueClose parts.counting place = t at hstep
  cases hstep with
  | idle => exact k
  | discoverer hplace hclosing hphase hfetcher hcount =>
    constructor
    case unset => exact fun hnone => hcount.trans (k.unset (hfetcher.symm.trans hnone))
    case released =>
      intro h hsome
      rw [hcount]
      refine k.released ?_ (hfetcher.symm.trans hsome)
      rcases h with hclosed | ⟨result, hending⟩
      · exact Or.inl (hphase.symm.trans hclosed)
      · rw [hclosing] at hending
        rcases List.mem_or_eq_of_mem_set hending with hending | hending
        · exact Or.inr ⟨result, hending⟩
        · cases hending
  | fetcher hplace hclosing hphase hfetcher hcount =>
    constructor
    case unset =>
      intro hnone
      have hnone' := hfetcher.symm.trans hnone
      rw [hcount, hnone', k.unset hnone']
      rfl
    case released =>
      intro _ hsome
      rw [hcount, hfetcher.symm.trans hsome]
      exact Nat.succ_pos _
  | ending hplace =>
    exact ⟨k.unset, fun _ => k.released (Or.inr ⟨_, List.mem_of_getElem? hplace⟩)⟩

theorem close (k : s.Accounted) (parts : Components δ ω) :
    (s.perform parts.counting (.session .close)).Accounted := by
  rw [← (performAll_close parts.counting s).1]
  exact ((k.beginClose.continueClose parts _).continueClose parts _).continueClose parts _

theorem perform (k : s.Accounted) (o : s.Orderly) (parts : Components δ ω) (a : LifecycleAction) :
    (s.perform parts.counting a).Accounted := by
  cases a with
  | session a =>
    by_cases ha : a = .close
    · rw [ha]
      exact k.close parts
    · exact k.session o parts ha
  | beginClose => exact k.beginClose
  | continueClose place => exact k.continueClose parts place

theorem performAll (k : s.Accounted) (o : s.Orderly) (parts : Components δ ω)
    (actions : List LifecycleAction) : (s.performAll parts.counting actions).Accounted := by
  induction actions generalizing s with
  | nil => exact k
  | cons a actions ih =>
    exact ih (k.perform o parts a) (o.of_step (o.perform_step parts.counting a))

end Accounted

/-- No call that closes the connector begins while another one is under way. -/
def ClosesApart (parts : Components δ ω) (s : Lifecycle δ ω) (actions : List LifecycleAction) : Prop :=
  ∀ earlier a later, actions = earlier ++ a :: later → a.beginsClose = true →
    (s.performAll parts earlier).closing = []

theorem closesApart_nil (parts : Components δ ω) (s : Lifecycle δ ω) : s.ClosesApart parts [] :=
  fun _ _ _ hsplit => absurd hsplit.symm (List.append_ne_nil_of_right_ne_nil _ (List.cons_ne_nil _ _))

theorem closesApart_cons {parts : Components δ ω} {s : Lifecycle δ ω} {a : LifecycleAction}
    {actions : List LifecycleAction} : s.ClosesApart parts (a :: actions) ↔
      (a.beginsClose = true → s.closing = []) ∧ (s.perform parts a).ClosesApart parts actions := by
  constructor
  · intro h
    refine ⟨h [] a actions rfl, fun earlier b later hsplit hb => ?_⟩
    exact h (a :: earlier) b later (congrArg (a :: ·) hsplit) hb
  · rintro ⟨ha, h⟩ earlier b later hsplit hb
    cases earlier with
    | nil =>
      obtain ⟨rfl, -⟩ := List.cons.inj hsplit
      exact ha hb
    | cons c earlier =>
      obtain ⟨rfl, hrest⟩ := List.cons.inj hsplit
      exact h earlier b later hrest hb

/-- What holds besides if calls that close do not overlap: until the one that is under way has passed the
fetcher, the client was not asked to close, and after that it is not asked again. -/
structure Alone (s : Lifecycle δ (ω × Nat)) : Prop where
  count : s.world.2 ≤ 1
  unreleased : ¬ s.HasPassed → s.world.2 = 0
  single : s.closing = [] ∨ s.connector.phase ≠ .closed ∧ ∃ stage, s.closing = [stage]

namespace Alone

variable {s : Lifecycle δ (ω × Nat)}

omit [Libraries] in
theorem start (c : Connector δ) (w : ω) : (start c (w, 0)).Alone :=
  ⟨Nat.zero_le 1, fun _ => rfl, Or.inl rfl⟩

omit [Libraries] in
theorem eq_singleton (k : s.Alone) {place : Nat} {stage : ClosingStage}
    (hplace : s.closing[place]? = some stage) :
    s.connector.phase ≠ .closed ∧ place = 0 ∧ s.closing = [stage] := by
  rcases k.single with hnil | ⟨hphase, other, hother⟩
  · rw [hnil] at hplace
    cases hplace
  · rw [hother] at hplace
    cases place with
    | zero => exact ⟨hphase, rfl, hother.trans (congrArg ([·]) (Option.some.inj hplace))⟩
    | succ place => cases hplace

theorem session (k : s.Alone) (parts : Components δ ω) {a : SessionAction} (ha : a ≠ .close) :
    (s.perform parts.counting (.session a)).Alone := by
  have hstep := Session.perform_step parts.counting.movesAnywhere s.toSession a
  have hcount : (s.perform parts.counting (.session a)).world.2 = s.world.2 :=
    s.toSession.count_perform parts ha
  have hclosed (h : s.connector.phase = .closed) :
      (s.perform parts.counting (.session a)).connector.phase = .closed :=
    Phase.closed_of_rank_le (h ▸ hstep.rank_le)
  constructor
  case count => exact hcount ▸ k.count
  case unreleased => exact fun h => hcount.trans (k.unreleased fun hs => h (hs.imp_left hclosed))
  case single =>
    exact k.single.imp_right fun ⟨hphase, hstage⟩ => ⟨mt (hstep.closed_before ha) hphase, hstage⟩

omit [Libraries] in
theorem beginClose (k : s.Alone) (hclosing : s.closing = []) : s.beginClose.Alone := by
  unfold Lifecycle.beginClose
  split
  next => exact k
  next hphase =>
    have hunpassed : ¬ s.HasPassed := by
      rintro (hclosed | ⟨result, hending⟩)
      · exact hphase hclosed
      · rw [hclosing] at hending
        cases hending
    have hcancel : s.connector.cancel.phase ≠ .closed := mt Phase.closed_of_stop hphase
    exact ⟨k.count, fun _ => k.unreleased hunpassed,
      Or.inr ⟨hcancel, .discoverer, congrArg (· ++ [ClosingStage.discoverer]) hclosing⟩⟩

omit [Libraries] in
theorem continueClose (k : s.Alone) (parts : Components δ ω) (place : Nat) :
    (s.continueClose parts.counting place).Alone := by
  have hstep := continueClose_step parts s place
  generalize s.continueClose parts.counting place = t at hstep
  -- Before the call under way passes the fetcher, the client was not asked.
  have hunreleased {stage : ClosingStage} (hplace : s.closing[place]? = some stage)
      (hstage : ∀ result, stage ≠ .ending result) : s.world.2 = 0 := by
    obtain ⟨hphase, -, hclosing⟩ := k.eq_singleton hplace
    apply k.unreleased
    rintro (hclosed | ⟨result, hending⟩)
    · exact hphase hclosed
    · rw [hclosing] at hending
      exact hstage result (List.mem_singleton.mp hending).symm
  cases hstep with
  | idle => exact k
  | @discoverer _ first hplace hclosing hphase _ hcount =>
    obtain ⟨hlive, rfl, hsingle⟩ := k.eq_singleton hplace
    rw [hsingle] at hclosing
    have hzero := hcount.trans (hunreleased hplace nofun)
    exact ⟨hzero ▸ Nat.zero_le 1, fun _ => hzero,
      Or.inr ⟨hphase ▸ hlive, .fetcher first, hclosing⟩⟩
  | @fetcher _ first result hplace hclosing hphase _ hcount =>
    obtain ⟨hlive, rfl, hsingle⟩ := k.eq_singleton hplace
    rw [hsingle] at hclosing
    rw [hunreleased hplace nofun, Nat.zero_add] at hcount
    have hpassed : t.HasPassed := by
      refine Or.inr ⟨result, ?_⟩
      rw [hclosing]
      exact List.mem_singleton_self _
    exact ⟨hcount ▸ Bool.toNat_le _, fun h => absurd hpassed h,
      Or.inr ⟨hphase ▸ hlive, .ending result, hclosing⟩⟩
  | ending hplace =>
    obtain ⟨-, rfl, hsingle⟩ := k.eq_singleton hplace
    have hnil : s.closing.eraseIdx 0 = [] := by
      rw [hsingle]
      rfl
    exact ⟨k.count, fun h => absurd (Or.inl rfl) h, Or.inl hnil⟩

theorem perform (k : s.Alone) (parts : Components δ ω) {a : LifecycleAction}
    (ha : a.beginsClose = true → s.closing = []) : (s.perform parts.counting a).Alone := by
  cases a with
  | session a =>
    by_cases hclose : a = .close
    · obtain rfl := hclose
      rw [← (performAll_close parts.counting s).1]
      have hbegun := k.beginClose (ha rfl)
      exact ((hbegun.continueClose parts _).continueClose parts _).continueClose parts _
    · exact k.session parts hclose
  | beginClose => exact k.beginClose (ha rfl)
  | continueClose place => exact k.continueClose parts place

theorem performAll (k : s.Alone) (parts : Components δ ω) {actions : List LifecycleAction}
    (h : s.ClosesApart parts.counting actions) : (s.performAll parts.counting actions).Alone := by
  induction actions generalizing s with
  | nil => exact k
  | cons a actions ih =>
    obtain ⟨ha, hrest⟩ := closesApart_cons.mp h
    exact ih (k.perform parts ha) hrest

end Alone

def WasOpened (parts : Components δ ω) (s : Lifecycle δ ω) (actions : List LifecycleAction) : Prop :=
  ∃ earlier later, actions = earlier ++ .session .open :: later ∧
    (s.performAll parts earlier).answer? parts (.session .open) = some (.ok ())

/-- A call that closes the connector has returned. -/
def WasClosed (parts : Components δ ω) (s : Lifecycle δ ω) (actions : List LifecycleAction) : Prop :=
  ∃ earlier a later r, actions = earlier ++ a :: later ∧ a.closes = true ∧
    (s.performAll parts earlier).answer? parts a = some r

section Answers

variable {parts : Components δ ω} {s : Lifecycle δ ω}

theorem wasOpened_cons {a : LifecycleAction} {actions : List LifecycleAction} :
    s.WasOpened parts (a :: actions) ↔
      (s.perform parts a).WasOpened parts actions ∨
        a = .session .open ∧ s.answer? parts a = some (.ok ()) := by
  constructor
  · rintro ⟨earlier, later, hsplit, hanswer⟩
    cases earlier with
    | nil =>
      obtain ⟨rfl, -⟩ := List.cons.inj hsplit
      exact Or.inr ⟨rfl, hanswer⟩
    | cons b earlier =>
      obtain ⟨rfl, hrest⟩ := List.cons.inj hsplit
      exact Or.inl ⟨earlier, later, hrest, hanswer⟩
  · rintro (⟨earlier, later, rfl, hanswer⟩ | ⟨rfl, hanswer⟩)
    · exact ⟨a :: earlier, later, rfl, hanswer⟩
    · exact ⟨[], actions, rfl, hanswer⟩

theorem isSome_fetcher_of_open (h : s.answer? parts (.session .open) = some (.ok ())) :
    (s.perform parts (.session .open)).connector.fetcher.isSome = true := by
  obtain ⟨_, _, _, _, _, _, -, -, -, hopened, -⟩ := Connector.open_ok (Option.some.inj h)
  change (s.connector.open parts s.world).connector.fetcher.isSome = true
  rw [hopened]
  rfl

omit [Libraries] in
theorem Closes.isSome_fetcher {t : Lifecycle δ ω} (h : s.Closes t) :
    t.connector.fetcher.isSome = s.connector.fetcher.isSome := by
  rcases h.fetcher with ⟨hsame, -⟩ | hcancelled
  · rw [hsame]
  · rw [hcancelled]
    exact Option.isSome_map

/-- Whether there is a fetcher changes only when an opening succeeds. -/
theorem Orderly.isSome_fetcher_perform (o : s.Orderly) (parts : Components δ ω)
    (a : LifecycleAction) :
    (s.perform parts a).connector.fetcher.isSome = true ↔
      a = .session .open ∧ s.answer? parts a = some (.ok ()) ∨
        s.connector.fetcher.isSome = true := by
  have hsame (h : (s.perform parts a).connector.fetcher.isSome = s.connector.fetcher.isSome) :
      (s.perform parts a).connector.fetcher.isSome = true ↔
        a = .session .open ∧ s.answer? parts a = some (.ok ()) ∨
          s.connector.fetcher.isSome = true := by
    refine ⟨fun hsome => Or.inr (h.symm.trans hsome), ?_⟩
    rintro (⟨rfl, hopen⟩ | hsome)
    · exact isSome_fetcher_of_open hopen
    · exact h.trans hsome
  cases a with
  | session a =>
    have hstep := Session.perform_step parts.movesAnywhere s.toSession a
    rcases hstep.isSome_fetcher with h | ⟨rfl, -, hopen⟩
    · exact hsame h
    · exact ⟨fun _ => Or.inl ⟨rfl, hopen⟩, fun _ => isSome_fetcher_of_open hopen⟩
  | beginClose =>
    rcases s.beginClose_cases with h | h
    · exact hsame (congrArg (·.connector.fetcher.isSome) h)
    · exact hsame h.isSome_fetcher
  | continueClose place =>
    rcases continueClose_cases parts place o.closing with h | h
    · exact hsame (congrArg (·.connector.fetcher.isSome) h)
    · exact hsame h.isSome_fetcher

theorem Orderly.isSome_fetcher_performAll (o : s.Orderly) (parts : Components δ ω)
    (actions : List LifecycleAction) :
    (s.performAll parts actions).connector.fetcher.isSome = true ↔
      s.WasOpened parts actions ∨ s.connector.fetcher.isSome = true := by
  induction actions generalizing s with
  | nil =>
    refine ⟨Or.inr, fun h => h.resolve_left ?_⟩
    rintro ⟨earlier, later, hsplit, -⟩
    exact absurd hsplit.symm (List.append_ne_nil_of_right_ne_nil _ (List.cons_ne_nil _ _))
  | cons a actions ih =>
    have hrest := ih (o.of_step (o.perform_step parts a))
    change ((s.perform parts a).performAll parts actions).connector.fetcher.isSome = true ↔ _
    rw [hrest, o.isSome_fetcher_perform, wasOpened_cons, or_assoc]

theorem closed_of_answer (parts : Components δ ω) (s : Lifecycle δ ω) {a : LifecycleAction}
    (ha : a.closes = true) {r : Except SourceError Unit} (h : s.answer? parts a = some r) :
    (s.perform parts a).connector.phase = .closed := by
  unfold LifecycleAction.closes at ha
  split at ha
  next => exact Connector.close_phase parts s.connector s.world
  next =>
    obtain ⟨hclosed, -⟩ := Option.ite_none_right_eq_some.mp h
    have hsame : s.perform parts .beginClose = s := if_pos hclosed
    rw [hsame, hclosed]
  next place =>
    simp only [answer?] at h
    split at h
    next result hplace => simp only [perform, continueClose, hplace]
    next => cases h
  next => cases ha

theorem Orderly.closed_of_wasClosed (o : s.Orderly) {actions : List LifecycleAction}
    (h : s.WasClosed parts actions) : (s.performAll parts actions).connector.phase = .closed := by
  obtain ⟨earlier, a, later, r, rfl, ha, hanswer⟩ := h
  have o' := o.performAll parts earlier
  have hclosed := closed_of_answer parts (s.performAll parts earlier) ha hanswer
  have hrank := (o'.of_step (o'.perform_step parts a)).rank_le_performAll parts later
  rw [hclosed] at hrank
  rw [performAll_append]
  exact Phase.closed_of_rank_le hrank

end Answers

/-- Whatever is done with a connector and whatever its client answers: when a call that closes the
connector has returned, the connector is closed, and its client was asked to close if and only if the
connector was opened before; it was asked once if the calls that close did not overlap. -/
theorem close_releases_opened {config : SourceConfig} {index count : UInt64}
    {c : Connector BrokerDiscoverer} (hc : Connector.create config index count = .ok c)
    (client : BrokerClient ω) (w : ω) (actions : List LifecycleAction) :
    let parts := client.counting.components
    let s := start c (w, 0)
    let t := s.performAll parts actions
    s.WasClosed parts actions →
      t.connector.phase = .closed ∧ (0 < t.world.2 ↔ s.WasOpened parts actions) ∧
        (s.ClosesApart parts actions → t.world.2 ≤ 1) := by
  intro parts s t hclosed
  have o : s.Orderly := .start hc _
  have hparts : parts = client.components.counting := client.components_counting.symm
  have k : t.Accounted := by
    simp only [t, hparts]
    exact (Accounted.start hc w).performAll o client.components actions
  have hphase : t.connector.phase = .closed := o.closed_of_wasClosed hclosed
  have hunset : s.connector.fetcher = none := by
    obtain ⟨-, subtask, -, rfl⟩ := Connector.create_ok hc
    rfl
  have hopened : t.connector.fetcher.isSome = true ↔ s.WasOpened parts actions := by
    rw [o.isSome_fetcher_performAll, hunset]
    exact or_iff_left Bool.false_ne_true
  refine ⟨hphase, ?_, fun hapart => ?_⟩
  · rw [← hopened]
    refine ⟨fun hpos => ?_, k.released (Or.inl hphase)⟩
    refine Decidable.byContradiction fun hnone => ?_
    rw [k.unset (Bool.eq_false_iff.mpr hnone)] at hpos
    exact Nat.lt_irrefl 0 hpos
  · simp only [hparts] at hapart
    simp only [t, hparts]
    exact ((Alone.start c w).performAll client.components hapart).count

end Lifecycle

end CheckpointedLog

namespace CheckpointedLog.Lifecycle

open scoped Pattern

/-- The client of a connector that was opened cannot be closed, but it is asked to, and only once. -/
theorem close_releases_opened_though_failing :
    let client : BrokerClient MemoryBroker :=
      { MemoryBroker.client with close := fun b => (.error (.transient "gone"), b) }
    let parts := client.counting.components
    let c : Connector BrokerDiscoverer := { config := { topics := .list ["t"] }, subtask := .single }
    let b := (MemoryBroker.ofMaxBatch 5).createTopic "t" 1
    let actions : List LifecycleAction := [.session .open, .session .run, .session .close]
    let s := start c (b, 0)
    let t := s.performAll parts actions
    s.WasClosed parts actions ∧ s.WasOpened parts actions ∧ s.ClosesApart parts actions ∧
      t.connector.phase = .closed ∧ t.world.2 = 1 := by
  intro client parts c b actions s t
  have hcreated : Connector.create c.config 0 1 = .ok c := by
    simp only [c]
    rfl
  have hopened : s.answer? parts (.session .open) = some (.ok ()) := by
    simp only [s, parts, client, c, b]
    rfl
  have hclosed : (s.performAll parts [.session .open, .session .run]).answer? parts
      (.session .close) = some (.error (.transient "gone")) := by
    simp only [s, parts, client, c, b]
    rfl
  have hidle : (s.performAll parts [.session .open, .session .run]).closing = [] := by
    simp only [s, parts, client, c, b]
    rfl
  have hapart : s.ClosesApart parts actions :=
    closesApart_cons.mpr ⟨nofun, closesApart_cons.mpr ⟨nofun,
      closesApart_cons.mpr ⟨fun _ => hidle, closesApart_nil parts _⟩⟩⟩
  have hwas : s.WasClosed parts actions :=
    ⟨[.session .open, .session .run], .session .close, [], _, rfl, rfl, hclosed⟩
  have hwas' : s.WasOpened parts actions := ⟨[], [.session .run, .session .close], rfl, hopened⟩
  clear_value client c b actions
  obtain ⟨hphase, hreleased, honce⟩ := close_releases_opened hcreated client b actions hwas
  exact ⟨hwas, hwas', hapart, hphase, Nat.le_antisymm (honce hapart) (hreleased.mpr hwas')⟩

/-- Before an opening there is no fetcher, and closing does not release the client. -/
theorem close_keeps_unopened :
    let client := MemoryBroker.client
    let parts := client.counting.components
    let c : Connector BrokerDiscoverer := { config := { topics := .list ["t"] }, subtask := .single }
    let s := start c (MemoryBroker.ofMaxBatch 5, 0)
    let t := s.performAll parts [.session .close]
    Connector.create c.config 0 1 = .ok c ∧
      s.answer? parts (.session .close) = some (.ok ()) ∧ s.WasClosed parts [.session .close] ∧
      t.connector.phase = .closed ∧ t.world.2 = 0 := by
  intro client parts c s t
  have hanswer : s.answer? parts (.session .close) = some (.ok ()) := rfl
  exact ⟨rfl, hanswer, ⟨[], _, [], _, rfl, rfl, hanswer⟩, rfl, rfl⟩

end CheckpointedLog.Lifecycle
