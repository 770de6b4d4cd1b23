import CheckpointedLog.Config.Source
import CheckpointedLog.Proofs.Except
import CheckpointedLog.Proofs.OffsetState

namespace CheckpointedLog.SourceConfig

variable [Libraries]

theorem maxDiscoveryAttempts_ne_zero {c : SourceConfig} (h : c.validate = .ok ()) :
    c.maxDiscoveryAttempts ≠ 0 := by
  unfold validate at h
  obtain ⟨_, -, h⟩ := exists_of_bind_eq_ok h
  simp only at h
  split at h
  · cases h
  split at h
  · cases h
  · assumption

/-- The pattern of a valid configuration, if it has one, can be compiled. -/
theorem exists_expression {c : SourceConfig} (h : c.validate = .ok ()) {text : String}
    (htopics : c.topics = .pattern text) : ∃ r, c.topics.compilePattern = .ok r := by
  unfold validate at h
  obtain ⟨_, hvalid, -⟩ := exists_of_bind_eq_ok h
  rw [htopics] at hvalid ⊢
  change (Topics.pattern text).compilePattern.map (fun _ => ()) = _ at hvalid
  cases hr : (Topics.pattern text).compilePattern with
  | error e =>
    rw [hr] at hvalid
    cases hvalid
  | ok r => exact ⟨r, rfl⟩

/-- All checks but that of the topics report the field that they check. -/
theorem validate_eq_error {c : SourceConfig} {e : SourceError} (hvalid : validateTopics c.topics = .ok ())
    (h : c.validate = .error e) : ∃ field message, e = .invalidValue field message := by
  have hrefused {field message : String} (h : refuse field message = .error e) :
      ∃ field message, e = .invalidValue field message := ⟨field, message, (Except.error.inj h).symm⟩
  unfold validate at h
  rw [hvalid] at h
  simp only at h
  split at h
  · exact hrefused h
  split at h
  · exact hrefused h
  split at h
  · exact hrefused h
  split at h
  · exact hrefused h
  · cases h

theorem nonneg_of_validate {c : SourceConfig} (h : c.validate = .ok ()) {start : StartPosition}
    (hs : start ∈ c.startPositions) : 0 ≤ start.position := by
  unfold validate at h
  obtain ⟨_, -, h⟩ := exists_of_bind_eq_ok h
  simp only at h
  split at h
  · cases h
  split at h
  · cases h
  split at h
  · cases h
  split at h
  · cases h
  · next hnone =>
    have hnot := List.find?_eq_none.mp hnone start hs
    rw [decide_eq_true_iff, Int64.not_lt] at hnot
    exact hnot

/-- A partition without restored offset starts at an offset that a snapshot can hold. -/
theorem startupOffset_storable {c : SourceConfig} (h : c.validate = .ok ()) (p : Partition) :
    (c.startupOffset p).Storable := by
  unfold startupOffset
  split
  · trivial
  · trivial
  · trivial
  split
  next position hposition =>
    obtain ⟨start, hstart, he⟩ := List.mem_map.mp (SortedMap.mem_of_get?_ofList hposition)
    obtain ⟨rfl, rfl⟩ := Prod.mk.inj he
    have hnonneg := nonneg_of_validate h hstart
    have hne : start.position ≠ Int64.minValue := fun hmin =>
      absurd (hmin ▸ hnonneg) (by decide)
    have hbefore := Position.neg_one_le_beforeCapped_iff.mpr hnonneg
    rwa [Position.beforeCapped, if_neg hne] at hbefore
  next => trivial

end CheckpointedLog.SourceConfig
