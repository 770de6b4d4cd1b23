import CheckpointedLog.Fetch.FetchHistory
import CheckpointedLog.Proofs.OffsetState

namespace CheckpointedLog.FetchHistory

variable {s : OffsetState} {h : FetchHistory}

theorem recordsFrom_append (h h' : FetchHistory) (p : Partition) :
    recordsFrom (h ++ h') p = recordsFrom h p ++ recordsFrom h' p :=
  List.filterMap_append ..

theorem resolutions_append (h h' : FetchHistory) (p : Partition) :
    resolutions (h ++ h') p = resolutions h p ++ resolutions h' p :=
  List.filterMap_append ..

theorem records_append (h h' : FetchHistory) : records (h ++ h') = records h ++ records h' :=
  List.filterMap_append ..

theorem mem_recordsFrom {p : Partition} {r : Record} :
    r ∈ recordsFrom h p ↔ .emitted p r ∈ h := by
  rw [recordsFrom, List.mem_filterMap]
  constructor
  · rintro ⟨e, he, hr⟩
    cases e with
    | emitted q x =>
      by_cases hq : q = p
      · subst hq
        simp only [if_true] at hr
        exact Option.some.inj hr ▸ he
      · simp [hq] at hr
    | _ => cases hr
  · exact fun hr => ⟨_, hr, by simp⟩

theorem mem_resolutions {p : Partition} {n : Position} :
    n ∈ resolutions h p ↔ .resolved p n ∈ h := by
  rw [resolutions, List.mem_filterMap]
  constructor
  · rintro ⟨e, he, hn⟩
    cases e with
    | resolved q m =>
      by_cases hq : q = p
      · subst hq
        simp only [if_true] at hn
        exact Option.some.inj hn ▸ he
      · simp [hq] at hn
    | _ => cases hn
  · exact fun hn => ⟨_, hn, by simp⟩

/-- If every record claims to be from the partition that it was polled from, the claims tell the
partitions apart. -/
theorem filter_records (hh : ∀ q r, FetchEvent.emitted q r ∈ h → r.partition = q) (p : Partition) :
    (records h).filter (fun r => r.partition = p) = recordsFrom h p := by
  induction h with
  | nil => rfl
  | cons e h ih =>
    have ih := ih fun q r hr => hh q r (List.mem_cons_of_mem e hr)
    cases e with
    | emitted q r =>
      have hq := hh q r (List.mem_cons_self ..)
      simp only [records, recordsFrom, List.filterMap_cons] at ih ⊢
      by_cases hp : q = p
      · rw [List.filter_cons_of_pos (by simp [hq, hp]), if_pos hp, ih]
      · rw [List.filter_cons_of_neg (by simp [hq, hp]), if_neg hp, ih]
    | _ => exact ih

/-- A copy stands in the first part of a history, or in the second one. -/
theorem copied_of_append {events before after : FetchHistory} {c : OffsetState}
    (h' : h ++ events = before ++ .copied c :: after) :
    (∃ rest, after = rest ++ events ∧ h = before ++ .copied c :: rest) ∨
      ∃ front, before = h ++ front ∧ events = front ++ .copied c :: after := by
  rcases List.append_eq_append_iff.mp h' with ⟨front, hbefore, hevents⟩ | ⟨middle, hfront, hrest⟩
  · exact Or.inr ⟨front, hbefore, hevents⟩
  cases middle with
  | nil =>
    rw [List.append_nil] at hfront
    exact Or.inr ⟨[], by rw [hfront, List.append_nil], hrest.symm⟩
  | cons e rest =>
    obtain ⟨rfl, rfl⟩ := List.cons.inj hrest
    exact Or.inl ⟨rest, rfl, hfront⟩

theorem origin_added (s : OffsetState) (h : FetchHistory) (ps : List Partition) (o : Offset)
    (p : Partition) :
    origin s (h ++ [.added ps o]) p = (origin s h p).or (if p ∈ ps then some o else none) := by
  simp [origin, List.findSome?_append, Option.or_assoc]

theorem origin_resolved (s : OffsetState) (h : FetchHistory) (q : Partition) (n : Position)
    (p : Partition) : origin s (h ++ [.resolved q n]) p = origin s h p := by
  simp [origin, List.findSome?_append]

theorem origin_emitted (s : OffsetState) (h : FetchHistory) (q : Partition) (r : Record)
    (p : Partition) : origin s (h ++ [.emitted q r]) p = origin s h p := by
  simp [origin, List.findSome?_append]

theorem origin_copied (s : OffsetState) (h : FetchHistory) (c : OffsetState) (p : Partition) :
    origin s (h ++ [.copied c]) p = origin s h p := by
  simp [origin, List.findSome?_append]

theorem entry_emitted (s : OffsetState) (h : FetchHistory) (q : Partition) (r : Record)
    (p : Partition) :
    entry s (h ++ [.emitted q r]) p = if p = q then some (.concrete r.offset) else entry s h p := by
  unfold entry
  rw [recordsFrom_append, resolutions_append, origin_emitted]
  by_cases hp : p = q
  · simp [recordsFrom, hp]
  · simp [recordsFrom, resolutions, hp, Ne.symm hp]

theorem entry_resolved (s : OffsetState) {h : FetchHistory} {q : Partition} (n : Position)
    (hq : recordsFrom h q = []) (p : Partition) :
    entry s (h ++ [.resolved q n]) p =
      if p = q then some (.concrete (Position.beforeCapped n)) else entry s h p := by
  unfold entry
  rw [recordsFrom_append, resolutions_append, origin_resolved]
  by_cases hp : p = q
  · subst hp
    rw [hq]
    simp [recordsFrom, resolutions]
  · simp [recordsFrom, resolutions, hp, Ne.symm hp]

theorem entry_added (s : OffsetState) (h : FetchHistory) (ps : List Partition) (o : Offset)
    (p : Partition) :
    entry s (h ++ [.added ps o]) p = (entry s h p).or (if p ∈ ps then some o else none) := by
  have hrecords : recordsFrom (h ++ [.added ps o]) p = recordsFrom h p := by
    simp [recordsFrom]
  have hresolutions : resolutions (h ++ [.added ps o]) p = resolutions h p := by
    simp [resolutions]
  unfold entry
  rw [hrecords, hresolutions, origin_added]
  cases (recordsFrom h p).getLast? with
  | some r => rfl
  | none =>
    cases (resolutions h p).getLast? with
    | some n => rfl
    | none => rfl

theorem entry_copied (s : OffsetState) (h : FetchHistory) (c : OffsetState) (p : Partition) :
    entry s (h ++ [.copied c]) p = entry s h p := by
  unfold entry
  rw [recordsFrom_append, resolutions_append, origin_copied]
  simp [recordsFrom, resolutions]

theorem origin_append {p : Partition} {o : Offset} (ho : origin s h p = some o) (events : FetchHistory) :
    origin s (h ++ events) p = some o := by
  rw [origin, List.findSome?_append, ← Option.or_assoc]
  rw [origin] at ho
  rw [ho, Option.some_or]

/-- While a sentinel is expected nothing happened to the partition. -/
theorem of_entry_isSentinel {p : Partition} {o : Offset} (he : entry s h p = some o)
    (ho : o.isSentinel = true) :
    recordsFrom h p = [] ∧ resolutions h p = [] ∧ origin s h p = some o := by
  unfold entry at he
  cases hr : (recordsFrom h p).getLast? with
  | some r =>
    rw [hr] at he
    obtain rfl := Option.some.inj he
    cases ho
  | none =>
    rw [hr] at he
    cases hn : (resolutions h p).getLast? with
    | some n =>
      rw [hn] at he
      obtain rfl := Option.some.inj he
      cases ho
    | none =>
      rw [hn] at he
      exact ⟨List.getLast?_eq_none_iff.mp hr, List.getLast?_eq_none_iff.mp hn, he⟩

theorem start_emitted (s : OffsetState) (h : FetchHistory) (q : Partition) (r : Record)
    (p : Partition) : start s (h ++ [.emitted q r]) p = start s h p := by
  unfold start
  rw [resolutions_append, origin_emitted]
  simp [resolutions]

theorem start_copied (s : OffsetState) (h : FetchHistory) (c : OffsetState) (p : Partition) :
    start s (h ++ [.copied c]) p = start s h p := by
  unfold start
  rw [resolutions_append, origin_copied]
  simp [resolutions]

theorem start_resolved_of_ne (s : OffsetState) (h : FetchHistory) {p q : Partition} (n : Position)
    (hp : p ≠ q) : start s (h ++ [.resolved q n]) p = start s h p := by
  unfold start
  rw [resolutions_append, origin_resolved]
  simp [resolutions, hp.symm]

theorem start_resolved_self {q : Partition} {o : Offset} (n : Position)
    (ho : origin s h q = some o) (hs : o.isSentinel = true) :
    start s (h ++ [.resolved q n]) q = some n.toInt := by
  unfold start
  rw [resolutions_append, origin_resolved, ho]
  cases o with
  | concrete last => cases hs
  | _ => simp [resolutions]

/-- A start that is known does not change when partitions are added. -/
theorem start_added {p : Partition} {x : Int} (hx : start s h p = some x) (ps : List Partition)
    (o : Offset) : start s (h ++ [.added ps o]) p = some x := by
  unfold start at hx ⊢
  rw [resolutions_append, origin_added]
  cases ho : origin s h p with
  | none =>
    rw [ho] at hx
    cases hx
  | some a =>
    rw [ho] at hx
    rw [Option.some_or]
    simpa [resolutions] using hx

theorem recordsFrom_emitted (h : FetchHistory) (q : Partition) (r : Record) (p : Partition) :
    recordsFrom (h ++ [.emitted q r]) p = recordsFrom h p ++ if p = q then [r] else [] := by
  rw [recordsFrom_append]
  by_cases hp : p = q
  · simp [recordsFrom, hp]
  · simp [recordsFrom, hp, Ne.symm hp]

theorem recordsFrom_append_of_quiet (h : FetchHistory) {e : FetchEvent}
    (he : ∀ q r, e ≠ .emitted q r) (p : Partition) :
    recordsFrom (h ++ [e]) p = recordsFrom h p := by
  cases e with
  | emitted q r => exact absurd rfl (he q r)
  | _ => simp [recordsFrom]

end CheckpointedLog.FetchHistory

namespace CheckpointedLog.FetchTrace

variable {ω : Type}

theorem performAll_append (client : BrokerClient ω) (t : FetchTrace ω)
    (actions more : List (FetchAction ω)) :
    t.performAll client (actions ++ more) = (t.performAll client actions).performAll client more :=
  List.foldl_append

theorem exists_history_append (t : FetchTrace ω) (client : BrokerClient ω)
    (actions : List (FetchAction ω)) :
    ∃ events, (t.performAll client actions).history = t.history ++ events := by
  induction actions generalizing t with
  | nil => exact ⟨[], (List.append_nil _).symm⟩
  | cons a actions ih =>
    obtain ⟨events, hevents⟩ := ih (t.perform client a)
    refine ⟨(t.run.perform client a).2.toList ++ events, ?_⟩
    rw [← List.append_assoc]
    exact hevents

end CheckpointedLog.FetchTrace
