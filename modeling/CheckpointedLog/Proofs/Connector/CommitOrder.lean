import CheckpointedLog.Pattern.Reader
import CheckpointedLog.Proofs.Checkpoint.Pending
import CheckpointedLog.Proofs.Connector.Commits
import CheckpointedLog.Proofs.Connector.Progress

/-!
The order of commits. What was committed, the snapshots that are pending, those that are under way and
the present offsets stand in a line in which nobody is behind an earlier one. A completed checkpoint
drops the older snapshots, so that what is committed next was never before it in the line.
-/
namespace CheckpointedLog

variable {δ ω : Type}

/-- The checkpoint for which a snapshot begins. -/
def SessionAction.snapshotId? : SessionAction → Option UInt64
  | beginSnapshot id => some id
  | _ => none

/-- Snapshots that overlap take turns: none of them gets ahead of one that began earlier. -/
def SessionAction.TakesTurn (s : Session δ ω) : SessionAction → Prop
  | copySnapshot place =>
    place < s.snapshots.length → ∀ x ∈ s.snapshots.take place, x.2.isSome = true
  | endSnapshot place => place < s.snapshots.length → place = 0
  | _ => True

namespace Session

/-- All snapshots in a sequence of actions take turns. -/
def InTurn [Libraries] (parts : Components δ ω) (s : Session δ ω) : List SessionAction → Prop
  | [] => True
  | a :: actions => a.TakesTurn s ∧ (s.perform parts a).InTurn parts actions

/-- The offsets that were copied for the snapshots under way. -/
def copies (s : Session δ ω) : List OffsetMap :=
  s.snapshots.filterMap fun x => x.2.map OffsetState.concreteOffsets

/-- The offsets that may still be committed, from the oldest to the newest. -/
def line (s : Session δ ω) : List OffsetMap := s.connector.pending.waiting ++ s.copies

/-- What was committed and what may still be committed is in order, and so are the checkpoints that are
pending, those whose snapshots are under way, and those to come, `ids`. -/
structure Queued (committed : List OffsetMap) (ids : List UInt64)
    (s : Session δ (ω × List OffsetMap)) : Prop where
  log : s.world.2.map .ok = committed.map Fetcher.positionsAfter
  order : (committed ++ s.line).Pairwise OffsetMap.Precedes
  behind : ∀ m ∈ committed ++ s.line, m.Precedes s.connector.currentState.concreteOffsets
  ascending : (s.snapshots.map (·.1) ++ ids).Pairwise (· ≤ ·)
  pending : ∀ id ∈ s.connector.pending.ids, ∀ next ∈ s.snapshots.map (·.1) ++ ids, id ≤ next
  /-- The snapshots for which offsets were copied are the first ones. -/
  copied : s.snapshots.Pairwise fun x y => y.2.isSome = true → x.2.isSome = true

namespace Queued

variable {parts : Components δ ω} {s s' : Session δ (ω × List OffsetMap)} {a : SessionAction}
  {committed committed' : List OffsetMap} {ids ids' : List UInt64}

/-- An action that moves the line up, or takes from it. -/
theorem of_sublist (q : s.Queued committed ids)
    (hlog : s'.world.2.map .ok = committed'.map Fetcher.positionsAfter)
    (hline : (committed' ++ s'.line).Sublist (committed ++ s.line))
    (hstate : OffsetState.Precedes s.connector.currentState s'.connector.currentState)
    (hids : (s'.snapshots.map (·.1) ++ ids').Sublist (s.snapshots.map (·.1) ++ ids))
    (hpending : ∀ id ∈ s'.connector.pending.ids, id ∈ s.connector.pending.ids ∨
      ∀ next ∈ s'.snapshots.map (·.1) ++ ids', id ≤ next)
    (hcopied : s'.snapshots.Pairwise fun x y => y.2.isSome = true → x.2.isSome = true) :
    s'.Queued committed' ids' where
  log := hlog
  order := q.order.sublist hline
  behind := by
    intro m hm
    have hbefore := q.behind m (hline.subset hm)
    exact hbefore.trans hstate.concreteOffsets
  ascending := q.ascending.sublist hids
  pending := by
    intro id hid next hnext
    rcases hpending id hid with hid | hafter
    · exact q.pending id hid next (hids.subset hnext)
    · exact hafter next hnext
  copied := hcopied

theorem of_same (q : s.Queued committed ids) (hlog : s'.world.2 = s.world.2)
    (hpending : s'.connector.pending = s.connector.pending) (hsnapshots : s'.snapshots = s.snapshots)
    (hstate : OffsetState.Precedes s.connector.currentState s'.connector.currentState)
    (hids : ids'.Sublist ids) : s'.Queued committed ids' := by
  have hline : s'.line = s.line := by
    rw [line, line, copies, copies, hpending, hsnapshots]
  apply q.of_sublist
  · rw [hlog]
    exact q.log
  · exact hline.symm ▸ List.Sublist.refl (committed ++ s.line)
  · exact hstate
  · rw [hsnapshots]
    exact (List.Sublist.refl _).append hids
  · rw [hpending]
    intro id hid
    exact Or.inl hid
  · rw [hsnapshots]
    exact q.copied

theorem begun {id : UInt64} {c : Connector δ} (q : s.Queued committed (id :: ids))
    (hpending : c.pending = s.connector.pending) (hfetcher : c.fetcher = s.connector.fetcher) :
    { s with connector := c, snapshots := s.snapshots ++ [(id, none)] }.Queued committed ids := by
  have hline : line { s with connector := c, snapshots := s.snapshots ++ [(id, none)] } = s.line := by
    simp [line, copies, hpending]
  have hstate : c.currentState = s.connector.currentState := by
    rw [Connector.currentState, Connector.currentState, hfetcher]
  apply q.of_sublist
  · exact q.log
  · exact hline.symm ▸ List.Sublist.refl (committed ++ s.line)
  · rw [hstate]
    exact .refl _
  · simp
  · intro other hother
    rw [hpending] at hother
    exact Or.inl hother
  · refine List.pairwise_append.mpr ⟨q.copied, List.pairwise_singleton _ _, ?_⟩
    intro x hx y hy hcopied
    obtain rfl := List.mem_singleton.mp hy
    cases hcopied

/-- Before a snapshot whose turn it is all offsets were copied, and after it none were. -/
theorem exists_split {place : Nat} {id : UInt64} (q : s.Queued committed ids)
    (hplace : s.snapshots[place]? = some (id, none))
    (hturn : ∀ x ∈ s.snapshots.take place, x.2.isSome = true) :
    ∃ earlier later, s.snapshots = earlier ++ (id, none) :: later ∧
      (∀ y, s.snapshots.set place y = earlier ++ y :: later) ∧
      (∀ x ∈ earlier, x.2.isSome = true) ∧ ∀ x ∈ later, x.2 = none := by
  obtain ⟨hlt, hget⟩ := List.getElem?_eq_some_iff.mp hplace
  have hsplit : s.snapshots = s.snapshots.take place ++ (id, none) :: s.snapshots.drop (place + 1) := by
    rw [← hget, ← List.drop_eq_getElem_cons hlt, List.take_append_drop]
  have hcopied := q.copied
  rw [hsplit] at hcopied
  obtain ⟨-, hrest, -⟩ := List.pairwise_append.mp hcopied
  refine ⟨_, _, hsplit, ?_, hturn, ?_⟩
  · intro y
    exact List.set_eq_take_append_cons_drop.trans (if_pos hlt)
  · intro x hx
    apply Option.not_isSome_iff_eq_none.mp
    intro hsome
    cases (List.pairwise_cons.mp hrest).1 x hx hsome

theorem copy {place : Nat} {id : UInt64} {f : Fetcher} (q : s.Queued committed ids)
    (hplace : s.snapshots[place]? = some (id, none)) (hf : s.connector.fetcher = some f)
    (hturn : ∀ x ∈ s.snapshots.take place, x.2.isSome = true) :
    { s with
      connector := s.connector.resume
      snapshots := s.snapshots.set place (id, some f.offsets)
      history := s.history ++ [FetchEvent.copied f.offsets] }.Queued committed ids := by
  obtain ⟨earlier, later, hsplit, hset, hearlier, hlater⟩ := q.exists_split hplace hturn
  have hnone : later.filterMap (fun x => x.2.map OffsetState.concreteOffsets) = [] := by
    apply List.filterMap_eq_nil_iff.mpr
    intro x hx
    rw [hlater x hx, Option.map_none]
  have hids : (s.snapshots.set place (id, some f.offsets)).map (·.1) = s.snapshots.map (·.1) := by
    rw [hset, hsplit]
    simp
  -- The new copy is the last of the line, and it holds what the fetcher has reached.
  have hline : committed ++ line { s with
      connector := s.connector.resume
      snapshots := s.snapshots.set place (id, some f.offsets)
      history := s.history ++ [FetchEvent.copied f.offsets] } =
      (committed ++ s.line) ++ [s.connector.currentState.concreteOffsets] := by
    rw [Connector.currentState_of_fetcher hf, line, line, copies, copies, hset, hsplit]
    simp [hnone, Connector.resume]
  constructor
  case log => exact q.log
  case order =>
    rw [hline]
    refine List.pairwise_append.mpr ⟨q.order, List.pairwise_singleton _ _, ?_⟩
    intro m hm x hx
    obtain rfl := List.mem_singleton.mp hx
    exact q.behind m hm
  case behind =>
    intro m hm
    rw [hline] at hm
    rcases List.mem_append.mp hm with hm | hm
    · exact q.behind m hm
    · obtain rfl := List.mem_singleton.mp hm
      exact .refl _
  case ascending =>
    simp only [hids]
    exact q.ascending
  case pending =>
    simp only [hids]
    exact q.pending
  case copied =>
    have hcopied := q.copied
    rw [hsplit] at hcopied
    obtain ⟨hfirst, hrest, -⟩ := List.pairwise_append.mp hcopied
    have hbehind := (List.pairwise_cons.mp hrest).2
    simp only [hset]
    refine List.pairwise_append.mpr
      ⟨hfirst, List.pairwise_cons.mpr ⟨fun _ _ _ => rfl, hbehind⟩, ?_⟩
    intro x hx _ _ _
    exact hearlier x hx

/-- The oldest snapshot under way becomes the newest of those that are pending. -/
theorem ended {id : UInt64} {copied : OffsetState} (q : s.Queued committed ids)
    (hplace : s.snapshots[0]? = some (id, some copied)) :
    { s with
      connector := (s.connector.endSnapshot id copied).2
      snapshots := s.snapshots.eraseIdx 0 }.Queued committed ids := by
  rw [← List.head?_eq_getElem?] at hplace
  obtain ⟨later, hsnapshots⟩ := List.head?_eq_some_iff.mp hplace
  have herase : s.snapshots.eraseIdx 0 = later := by rw [hsnapshots, List.eraseIdx_cons_zero]
  have hids := q.ascending
  have hpending := q.pending
  have hcopied := q.copied
  have hsplit : s.line = s.connector.pending.waiting ++ [OffsetState.concreteOffsets copied] ++
      later.filterMap fun x => x.2.map OffsetState.concreteOffsets := by
    rw [line, copies, hsnapshots]
    simp
  rw [hsnapshots] at hids hpending hcopied
  have hlast : ∀ other ∈ s.connector.pending.ids, other ≤ id := by
    intro other hother
    exact hpending other hother id (List.mem_cons_self ..)
  have hwaiting : (s.connector.endSnapshot id copied).2.pending.waiting.Sublist
      (s.connector.pending.waiting ++ [OffsetState.concreteOffsets copied]) := by
    simp only [Connector.endSnapshot]
    split
    · exact PendingCheckpoints.waiting_remember_sublist hlast _
    · exact List.sublist_append_left _ _
  have hmember : ∀ other ∈ (s.connector.endSnapshot id copied).2.pending.ids,
      other = id ∨ other ∈ s.connector.pending.ids := by
    intro other hother
    simp only [Connector.endSnapshot] at hother
    split at hother
    · exact PendingCheckpoints.mem_ids_remember hother
    · exact Or.inr hother
  rw [herase]
  -- The snapshot keeps its place in the line; only evicted ones may leave it.
  apply q.of_sublist
  · exact q.log
  · rw [hsplit]
    exact (List.Sublist.refl committed).append (hwaiting.append (.refl _))
  · exact .refl s.connector.currentState
  · rw [hsnapshots]
    exact List.sublist_cons_self _ _
  · intro other hother
    rcases hmember other hother with rfl | hother
    · exact Or.inr (List.pairwise_cons.mp hids).1
    · exact Or.inl hother
  · exact (List.pairwise_cons.mp hcopied).2

/-- A completed checkpoint takes its snapshot out of the line, and all that are older. -/
theorem completed {id : UInt64} {w : ω × List OffsetMap} (q : s.Queued committed ids) (place : Nat)
    (hw : w.2 = s.world.2 ∨ ∃ offsets positions, s.connector.CompletesWith id offsets positions ∧
      w.2 = s.world.2 ++ [positions]) :
    ∃ committed', { s with
      connector := { s.connector with pending := (s.connector.pending.complete id).2 }, world := w
      completions := s.completions.eraseIdx place }.Queued committed' ids := by
  have hentries := PendingCheckpoints.entries_complete_sublist s.connector.pending id
  have hids : (s.connector.pending.complete id).2.ids.Sublist s.connector.pending.ids :=
    List.Sublist.map Prod.fst hentries
  have hkept : ∀ other ∈ (s.connector.pending.complete id).2.ids,
      other ∈ s.connector.pending.ids ∨ ∀ next ∈ s.snapshots.map (·.1) ++ ids, other ≤ next := by
    intro other hother
    exact Or.inl (hids.subset hother)
  rcases hw with hw | ⟨offsets, positions, hcompletes, hw⟩
  · refine ⟨committed, q.of_sublist ?_ ?_ (.refl _) (.refl _) hkept q.copied⟩
    · rw [hw]
      exact q.log
    · have hwaiting : (s.connector.pending.complete id).2.waiting.Sublist
          s.connector.pending.waiting := List.Sublist.map Prod.snd hentries
      exact (List.Sublist.refl committed).append (hwaiting.append (.refl _))
  · refine ⟨committed ++ [offsets], q.of_sublist ?_ ?_ (.refl _) (.refl _) hkept q.copied⟩
    · rw [hw, List.map_append, List.map_append, q.log, List.map_singleton, List.map_singleton,
        hcompletes.positions]
    · have hwaiting := PendingCheckpoints.cons_waiting_complete_sublist hcompletes.pending
      rw [List.append_assoc]
      exact (List.Sublist.refl committed).append (hwaiting.append (.refl s.copies))

theorem of_step [Libraries] (q : s.Queued committed (a.snapshotId?.toList ++ ids)) (hturn : a.TakesTurn s)
    (hcreated : s.connector.phase = .created → s.connector.fetcher = none)
    (hstep : s.Step parts.logging (fun w w' => w'.2 = w.2) a s') :
    ∃ committed', s'.Queued committed' ids := by
  have hids : ids.Sublist (a.snapshotId?.toList ++ ids) := List.sublist_append_right _ _
  have hstate := hstep.precedes hcreated
  have hlog := hstep.log
  cases hstep with
  | snapshotBegun => exact ⟨committed, q.begun rfl rfl⟩
  | copied hplace hf =>
    have hlt := (List.getElem?_eq_some_iff.mp hplace).1
    exact ⟨committed, q.copy hplace hf (hturn hlt)⟩
  | snapshotEnded hplace =>
    have hlt := (List.getElem?_eq_some_iff.mp hplace).1
    obtain rfl := hturn hlt
    exact ⟨committed, q.ended hplace⟩
  | completed _ hw =>
    refine q.completed _ (hw.imp ?_ ?_)
    · rintro rfl
      rfl
    · rintro ⟨offsets, positions, hcompletes, rfl⟩
      exact ⟨offsets, positions, hcompletes, rfl⟩
  | idle | restored | completionBegun => exact ⟨committed, q.of_same rfl rfl rfl hstate hids⟩
  | opened | openFailed | begun | fetched | tracked | discoveryEnded | searched | finished | failed
  | cancelled | closed =>
    have hsame := hlog.resolve_right (by rintro ⟨_, _, _, _, ha, -⟩; cases ha)
    exact ⟨committed, q.of_same hsame rfl rfl hstate hids⟩

theorem perform [Libraries] (q : s.Queued committed (a.snapshotId?.toList ++ ids)) (hturn : a.TakesTurn s)
    (hcreated : s.connector.phase = .created → s.connector.fetcher = none) :
    ∃ committed', (s.perform parts.logging a).Queued committed' ids :=
  q.of_step hturn hcreated (perform_step parts.logging_moves s a)

theorem performAll [Libraries] {J : ω × List OffsetMap → Prop}
    {I : OffsetState → FetchTrace (ω × List OffsetMap) → Prop}
    {G : ω × List OffsetMap → ω × List OffsetMap → Prop} (law : FetchLaw parts.logging J I G)
    (hsound : s.Sound J I) {actions : List SessionAction}
    (q : s.Queued committed (actions.filterMap SessionAction.snapshotId?))
    (hturns : s.InTurn parts.logging actions) :
    ∃ committed', (s.performAll parts.logging actions).Queued committed' [] := by
  induction actions generalizing s committed with
  | nil => exact ⟨committed, q⟩
  | cons a actions ih =>
    obtain ⟨hturn, hrest⟩ := hturns
    have hids : (a :: actions).filterMap SessionAction.snapshotId? =
        a.snapshotId?.toList ++ actions.filterMap SessionAction.snapshotId? := by
      cases ha : a.snapshotId? with
      | none => exact List.filterMap_cons_none ha
      | some id => exact List.filterMap_cons_some ha
    rw [hids] at q
    obtain ⟨committed', q'⟩ := q.perform hturn hsound.fetcher_of_created
    exact ih (hsound.perform law a) q' hrest

end Queued

end Session

end CheckpointedLog

namespace CheckpointedLog.Session

open scoped Pattern

end CheckpointedLog.Session
