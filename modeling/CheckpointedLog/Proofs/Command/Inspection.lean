import CheckpointedLog.Command.Report
import CheckpointedLog.Proofs.Files.FileProgram
import CheckpointedLog.Proofs.Snapshot.Detection

namespace CheckpointedLog

/-- How a report calls the form. There is only one version of the tagged form so far. -/
def SnapshotForm.label : SnapshotForm → String
  | unversioned => "unversioned"
  | tagged => "v1"

namespace Command

open Snapshot

variable {choice : Option String} {bytes : Bytes} {s : OffsetState}

/-- A snapshot is taken for what its header says, or else for what the named release wrote. -/
theorem exists_readAs_of_decode (h : decode choice bytes = .ok s) :
    ∃ form, readAs form bytes = .ok s ∧
      ∀ name release, choice = some name → Release.ofName name = .ok release →
        release.form = form := by
  cases choice with
  | none =>
    obtain ⟨form, hform⟩ := exists_readAs_of_read (eq_ok_of_mapError h)
    exact ⟨form, hform, nofun⟩
  | some name =>
    -- The name is looked up once, so that it stands for one release only.
    obtain ⟨release, hrelease, hread⟩ := exists_of_bind_eq_ok h
    refine ⟨release.form, eq_ok_of_mapError hread, ?_⟩
    intro name' release' hname hrelease'
    obtain rfl := Option.some.inj hname
    obtain rfl := Except.ok.inj (hrelease.symm.trans hrelease')
    rfl

theorem read_of_decode (h : decode choice bytes = .ok s) : read bytes = .ok s := by
  obtain ⟨form, hform, -⟩ := exists_readAs_of_decode h
  exact (readAs_eq_ok_iff.mp hform).2

theorem formName_of_readAs {form : SnapshotForm} (h : readAs form bytes = .ok s) :
    formName bytes = .ok form.label := by
  cases form with
  | unversioned =>
    have hheader : formatVersion bytes = .ok none := announced_of_readAs h
    rw [formName, hheader]
    rfl
  | tagged =>
    obtain ⟨rest, hbytes, -⟩ := readTagged_eq_ok_iff.mp h
    have hheader : formatVersion bytes = .ok (some 1) :=
      formatVersion_eq_ok_some_iff.mpr ⟨0, 1, rest, hbytes, rfl⟩
    rw [formName, hheader]
    rfl

variable [WorkingDirectory]

theorem run_inspect {fs : FileSystem} {path : String} {form : SnapshotForm}
    (hbytes : FileSystem.read fs path = .ok bytes) (h : decode choice bytes = .ok s)
    (hform : readAs form bytes = .ok s) :
    (inspect path choice).run.run fs =
      (.ok (.record [("type", .text "SNAPSHOT"), ("snapshot", .record
        [("path", .text path), ("format", .text form.label), ("partitions", stateValue s)])]), fs) := by
  have hname := formName_of_readAs hform
  simp only [inspect, FileTask.run_bind, FileTask.run_readExisting hbytes, FileTask.run_ofExcept, h,
    hname]
  rfl

/-- The header and the release table agree about all bytes: the readers of the old releases accept
those that are read at all and have no tag, the readers of the new ones those that have a tag. To the
readers of the other form they are corrupt, and the form that is reported is that of the reader. -/
theorem header_matches_release (bytes : Bytes) :
    (∀ release ∈ [Release.v0_1, .v0_2], ∀ s, readFrom release bytes = .ok s ↔
      formatVersion bytes = .ok none ∧ read bytes = .ok s) ∧
    (∀ release ∈ [Release.v0_3, .v1_0], ∀ s, readFrom release bytes = .ok s ↔
      (∃ version, formatVersion bytes = .ok (some version)) ∧ read bytes = .ok s) ∧
    (¬ ((∃ s, readAs .unversioned bytes = .ok s) ∧ ∃ s, readAs .tagged bytes = .ok s)) ∧
    ((¬ ∃ s, read bytes = .ok s) → ∀ release, ¬ ∃ s, readFrom release bytes = .ok s) ∧
    (∀ release other s, readFrom release bytes = .ok s → other.form ≠ release.form →
      ∃ message, (readFrom other bytes).mapError Fault.toError = .error (.corruptState message)) ∧
    (∀ choice s, decode choice bytes = .ok s → ∃ form, readAs form bytes = .ok s ∧
      (∀ name release, choice = some name → Release.ofName name = .ok release →
        release.form = form) ∧
      ∀ fs path, FileSystem.read fs path = .ok bytes → (inspect path choice).run.run fs =
        (.ok (.record [("type", .text "SNAPSHOT"), ("snapshot", .record
          [("path", .text path), ("format", .text form.label), ("partitions", stateValue s)])]),
          fs)) := by
  refine ⟨?_, ?_, ?_, ?_, ?_, ?_⟩
  · intro release hrelease s
    have hform : release.form = .unversioned := by
      revert release
      decide
    rw [readFrom, hform]
    exact readAs_eq_ok_iff
  · intro release hrelease s
    have hform : release.form = .tagged := by
      revert release
      decide
    rw [readFrom, hform]
    exact readAs_eq_ok_iff
  · rintro ⟨⟨s, hold⟩, t, hnew⟩
    cases announced_unique (announced_of_readAs hold) (announced_of_readAs hnew)
  · rintro hnone release ⟨s, h⟩
    exact hnone ⟨s, (readAs_eq_ok_iff.mp h).2⟩
  · intro release other s h hother
    obtain ⟨cause, hcause⟩ := readAs_other h hother
    refine ⟨cause.message, ?_⟩
    rw [readFrom, hcause]
    rfl
  · intro choice s h
    obtain ⟨form, hform, hnamed⟩ := exists_readAs_of_decode h
    exact ⟨form, hform, hnamed, fun fs path hbytes => run_inspect hbytes h hform⟩

end Command

end CheckpointedLog
