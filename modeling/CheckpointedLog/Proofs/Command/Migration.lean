import CheckpointedLog.Proofs.Command.Inspection
import CheckpointedLog.Proofs.Snapshot.Canonical

namespace CheckpointedLog.Command

open Snapshot

variable {choice again : Option String} {bytes : Bytes} {s t : OffsetState}

theorem decode_of_read (h : read bytes = .ok s) : decode none bytes = .ok s := by
  rw [decode, h]
  rfl

theorem decode_of_readFrom {name : String} {release : Release} (hname : Release.ofName name = .ok release)
    (h : readFrom release bytes = .ok s) : decode (some name) bytes = .ok s := by
  rw [decode, hname]
  change (readFrom release bytes).mapError Fault.toError = .ok s
  rw [h]
  rfl

/-- A state that was read is read from its snapshot, as any snapshot of the current form is. -/
theorem read_migrated (h : read bytes = .ok s) :
    read (write s) = .ok s ∧ ∀ release ∈ [Release.v0_3, .v1_0], readFrom release (write s) = .ok s :=
  (read_undoes_write (read_countable h) (read_storable h)).1

theorem eq_of_decode_migrated (h : read bytes = .ok s) (hagain : decode again (write s) = .ok t) :
    t = s :=
  Except.ok.inj ((read_of_decode hagain).symm.trans (read_migrated h).1)

variable [WorkingDirectory]

section Files

variable {fs after : FileSystem} {input output : String}

theorem run_migrate (hbytes : FileSystem.read fs input = .ok bytes) (h : decode choice bytes = .ok s) :
    (migrate input output choice).run.run fs =
      match (FileTask.replace output (write s)).run.run fs with
      | (.ok (), after) => (.ok (logReport ("Migrated " ++ toString s.size ++ " partitions from "
          ++ input ++ " to " ++ output ++ " (format v" ++ toString currentVersion.toNat ++ ")")), after)
      | (.error e, after) => (.error (e.inContext ("writing " ++ output)), after) := by
  simp only [migrate, FileTask.run_bind, FileTask.run_readExisting hbytes, FileTask.run_ofExcept, h,
    FileTask.run_inContext]
  rcases (FileTask.replace output (write s)).run.run fs with ⟨_ | _, after⟩ <;> rfl

/-- A migration succeeds if the output can be replaced by the snapshot of the state. -/
theorem exists_run_migrate_iff (hbytes : FileSystem.read fs input = .ok bytes)
    (h : decode choice bytes = .ok s) :
    (∃ report, (migrate input output choice).run.run fs = (.ok report, after)) ↔
      (FileTask.replace output (write s)).run.run fs = (.ok (), after) := by
  -- After the input was decoded only the replacement of the output can fail.
  rw [run_migrate hbytes h]
  rcases (FileTask.replace output (write s)).run.run fs with ⟨_ | _, left⟩
  · constructor
    · rintro ⟨report, hreport⟩
      cases hreport
    · intro hreplace
      cases hreplace
  · constructor
    · rintro ⟨report, hreport⟩
      exact Prod.ext rfl (Prod.mk.inj hreport).2
    · intro hreplace
      exact ⟨_, Prod.ext rfl (Prod.mk.inj hreplace).2⟩

/-- A migration that succeeds has accepted the input and leaves its state in the output. -/
theorem exists_of_run_migrate {report : Json.Value} (hbytes : FileSystem.read fs input = .ok bytes)
    (hrun : (migrate input output choice).run.run fs = (.ok report, after)) :
    ∃ s, decode choice bytes = .ok s ∧ FileSystem.read after output = .ok (write s) := by
  cases hs : decode choice bytes with
  | error e =>
    simp only [migrate, FileTask.run_bind, FileTask.run_readExisting hbytes, FileTask.run_ofExcept,
      hs] at hrun
    cases hrun
  | ok s =>
    have hreplace := (exists_run_migrate_iff hbytes hs).mp ⟨report, hrun⟩
    exact ⟨s, rfl, FileTask.read_of_run_replace hreplace⟩

end Files

/-- Let bytes be accepted as a state, whether a release is named or not. The snapshot that a migration
writes is read as the same state; it is the same bytes exactly if those have a tag and their entries in
strictly ascending order; and to migrate it once more, whatever release is named, writes it again. -/
theorem migrate_keeps_state (h : decode choice bytes = .ok s) :
    (read (write s) = .ok s ∧ (∀ release ∈ [Release.v0_3, .v1_0], readFrom release (write s) = .ok s) ∧
      ∀ again ∈ [none, some "0.3", some "1.0"], decode again (write s) = .ok s) ∧
    (∀ again t, decode again (write s) = .ok t → write t = write s) ∧
    (write s = bytes ↔ CanonicalLayout bytes) ∧
    ∀ fs input output, FileSystem.read fs input = .ok bytes → ∀ after,
      ((∃ report, (migrate input output choice).run.run fs = (.ok report, after)) ↔
        (FileTask.replace output (write s)).run.run fs = (.ok (), after)) ∧
      ∀ report, (migrate input output choice).run.run fs = (.ok report, after) →
        FileSystem.read after output = .ok (write s) ∧
        ∀ copy again report' after',
          (migrate output copy again).run.run after = (.ok report', after') →
            FileSystem.read after' copy = .ok (write s) := by
  have hread := read_of_decode h
  obtain ⟨hcurrent, hreleases⟩ := read_migrated hread
  refine ⟨⟨hcurrent, hreleases, ?_⟩, ?_, write_eq_iff hread, ?_⟩
  · intro again hagain
    simp only [List.mem_cons, List.not_mem_nil, or_false] at hagain
    rcases hagain with rfl | rfl | rfl
    · exact decode_of_read hcurrent
    · exact decode_of_readFrom rfl (hreleases .v0_3 (by decide))
    · exact decode_of_readFrom rfl (hreleases .v1_0 (by decide))
  · intro again t hagain
    rw [eq_of_decode_migrated hread hagain]
  · intro fs input output hbytes after
    refine ⟨exists_run_migrate_iff hbytes h, ?_⟩
    intro report hrun
    obtain ⟨s', hs', hwritten⟩ := exists_of_run_migrate hbytes hrun
    obtain rfl := Except.ok.inj (h.symm.trans hs')
    refine ⟨hwritten, ?_⟩
    intro copy again report' after' hrun'
    -- The second migration decodes what the first one wrote.
    obtain ⟨t, hagain, hcopy⟩ := exists_of_run_migrate hwritten hrun'
    obtain rfl := eq_of_decode_migrated hread hagain
    exact hcopy

end CheckpointedLog.Command

namespace CheckpointedLog.Command

open Snapshot
open scoped FileSystem.AtRoot

/-- A snapshot without a tag, its entries out of order. -/
theorem migrate_keeps_state_unordered :
    let bytes : Bytes := [0, 0, 0, 2,
      0, 0, 0, 1, 98, 0, 0, 0, 0, 0, 0, 0, 0, 0, 0, 0, 5,
      0, 0, 0, 1, 97, 255, 255, 255, 255, 255, 255, 255, 255, 255, 255, 255, 255]
    let s : OffsetState := .ofList [(⟨"a", -1⟩, .concrete (-1)), (⟨"b", 0⟩, .concrete 5)]
    decode (some "0.1") bytes = .ok s ∧ read (write s) = .ok s ∧ ¬ CanonicalLayout bytes := by
  intro bytes s
  have hread : readFrom .v0_1 bytes = .ok s := eq_ok_of_toOption (by decide +kernel)
  have h : decode (some "0.1") bytes = .ok s := decode_of_readFrom rfl hread
  obtain ⟨⟨hcurrent, -⟩, -, hcanonical, -⟩ := migrate_keeps_state h
  refine ⟨h, hcurrent, ?_⟩
  rw [← hcanonical]
  decide +kernel

end CheckpointedLog.Command
