import CheckpointedLog.Proofs.Snapshot.Grammar

namespace CheckpointedLog

/-- The header of the bytes speaks of this form. -/
def SnapshotForm.Announced (bytes : Bytes) : SnapshotForm → Prop
  | unversioned => Snapshot.formatVersion bytes = .ok none
  | tagged => ∃ version, Snapshot.formatVersion bytes = .ok (some version)

namespace Snapshot

variable {bytes : Bytes} {s : OffsetState} {form other : SnapshotForm}

theorem announced_unique (h : form.Announced bytes) (hother : other.Announced bytes) :
    form = other := by
  cases form with
  | unversioned =>
    cases other with
    | unversioned => rfl
    | tagged =>
      obtain ⟨version, hversion⟩ := hother
      cases h.symm.trans hversion
  | tagged =>
    obtain ⟨version, hversion⟩ := h
    cases other with
    | unversioned => cases hversion.symm.trans hother
    | tagged => rfl

theorem announced_of_readAs (h : readAs form bytes = .ok s) : form.Announced bytes := by
  cases form with
  | unversioned => exact formatVersion_of_readUnversioned (eq_ok_of_mapError h)
  | tagged =>
    obtain ⟨rest, hbytes, -⟩ := readTagged_eq_ok_iff.mp h
    exact ⟨1, formatVersion_eq_ok_some_iff.mpr ⟨0, 1, rest, hbytes, rfl⟩⟩

theorem read_of_announced (h : form.Announced bytes) : read bytes = readAs form bytes := by
  cases form with
  | unversioned => exact read_of_formatVersion_none h
  | tagged =>
    obtain ⟨version, hversion⟩ := h
    exact read_of_formatVersion_some hversion

/-- A reader accepts the bytes that are accepted at all and whose header speaks of its form. -/
theorem readAs_eq_ok_iff : readAs form bytes = .ok s ↔ form.Announced bytes ∧ read bytes = .ok s := by
  constructor
  · intro h
    have hform := announced_of_readAs h
    exact ⟨hform, (read_of_announced hform).trans h⟩
  · rintro ⟨hform, h⟩
    exact (read_of_announced hform).symm.trans h

/-- Whatever is read at all is read by the reader of one of the forms. -/
theorem exists_readAs_of_read (h : read bytes = .ok s) : ∃ form, readAs form bytes = .ok s := by
  obtain ⟨version, hversion, -⟩ := exists_of_bind_eq_ok h
  have hheader := eq_ok_of_mapError hversion
  cases version with
  | none => exact ⟨.unversioned, readAs_eq_ok_iff.mpr ⟨hheader, h⟩⟩
  | some version => exact ⟨.tagged, readAs_eq_ok_iff.mpr ⟨⟨version, hheader⟩, h⟩⟩

/-- To the reader of the other form such bytes are corrupt; they never look like a later version. -/
theorem corrupt_of_announced (hform : form.Announced bytes) (hother : other ≠ form) :
    ∃ cause, readAs other bytes = .error (.corrupt cause) := by
  cases other with
  | unversioned =>
    cases hread : readUnversioned bytes with
    | ok s' =>
      -- Then the header would speak of both forms.
      have hannounced : SnapshotForm.unversioned.Announced bytes :=
        formatVersion_of_readUnversioned hread
      exact absurd (announced_unique hannounced hform) hother
    | error cause =>
      refine ⟨cause, ?_⟩
      rw [readAs, hread]
      rfl
  | tagged =>
    cases form with
    | unversioned =>
      refine ⟨.untagged, ?_⟩
      change formatVersion bytes = .ok none at hform
      rw [readAs, readTagged, hform]
      rfl
    | tagged => exact absurd rfl hother

theorem readAs_other (h : readAs form bytes = .ok s) (hother : other ≠ form) :
    ∃ cause, readAs other bytes = .error (.corrupt cause) :=
  corrupt_of_announced (announced_of_readAs h) hother

end Snapshot

end CheckpointedLog
