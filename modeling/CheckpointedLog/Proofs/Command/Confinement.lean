import CheckpointedLog.Proofs.Command.Migration
import CheckpointedLog.Proofs.Files.Replacement

namespace CheckpointedLog.Command

open Snapshot

variable [WorkingDirectory]

/-- A migration that cannot read or decode its input ends before it writes anything; otherwise it comes to
the replacement of the output. -/
theorem run_migrate_cases (fs : FileSystem) (input output : String) (choice : Option String) :
    (∃ e, (migrate input output choice).run.run fs = (.error e, fs)) ∨
      ∃ bytes s, fs.read input = .ok bytes ∧ decode choice bytes = .ok s := by
  have hread := FileTask.run_readExisting_eq input fs
  cases hx : (FileTask.readExisting input).run.run fs with
  | mk result fs' =>
    obtain ⟨hresult, rfl⟩ := Prod.mk.inj (hx.symm.trans hread)
    cases result with
    | error e => exact Or.inl ⟨e, by simp only [migrate, FileTask.run_bind, hx]⟩
    | ok bytes =>
      split at hresult
      · cases hresult
      next =>
        have hbytes : fs'.read input = .ok bytes := eq_ok_of_mapError hresult.symm
        cases hs : decode choice bytes with
        | error e =>
          refine Or.inl ⟨e, ?_⟩
          simp only [migrate, FileTask.run_bind, hx, FileTask.run_ofExcept, hs]
        | ok s => exact Or.inr ⟨bytes, s, hbytes, hs⟩

/-- Replacing a file and migrating a snapshot touch two places at most: that of the target and the one of
the same name with another extension. Where the target can be replaced and nothing else stands beside it,
only the target changes, and after a failure nothing does; a success leaves the new content in the target.
Otherwise what stood beside it is lost: with a success if the content was moved, with a failure if it was
left there. -/
theorem migrate_confined (fs : FileSystem) :
    (∀ path content,
      let r := (FileTask.replace path content).run.run fs
      fs.Confined path r.1.isOk r.2 ∧
        (r.1.isOk = true → FileSystem.read r.2 path = .ok content)) ∧
    ∀ input output choice,
      let r := (migrate input output choice).run.run fs
      fs.Confined output r.1.isOk r.2 ∧
        (r.1.isOk = true → ∃ bytes s, fs.read input = .ok bytes ∧ decode choice bytes = .ok s ∧
          FileSystem.read r.2 output = .ok (write s)) := by
  constructor
  · intro path content r
    refine ⟨FileTask.replace_confined fs path content, fun hok => ?_⟩
    cases hr : r with
    | mk result after =>
      rw [hr] at hok
      cases result with
      | error e => cases hok
      | ok _ => exact FileTask.read_of_run_replace hr
  · intro input output choice r
    rcases run_migrate_cases fs input output choice with ⟨e, hfailed⟩ | ⟨bytes, s, hbytes, hs⟩
    · have hr : r = (.error e, fs) := hfailed
      rw [hr]
      exact ⟨.unchanged fs output, nofun⟩
    · -- The migration ends as the replacement of its output ends.
      have hreplaced := FileTask.replace_confined fs output (write s)
      have hr : r = _ := run_migrate hbytes hs
      cases hreplace : (FileTask.replace output (write s)).run.run fs with
      | mk result after =>
        rw [hreplace] at hreplaced hr
        cases result with
        | error e =>
          rw [hr]
          exact ⟨hreplaced, nofun⟩
        | ok _ =>
          rw [hr]
          exact ⟨hreplaced, fun _ => ⟨bytes, s, hbytes, hs, FileTask.read_of_run_replace hreplace⟩⟩

end CheckpointedLog.Command

namespace CheckpointedLog.Command

open scoped FileSystem.AtRoot

/-- The input stands where the output is written first: the migration succeeds, and the input is gone. -/
theorem migrate_removes_input :
    let fs : FileSystem := .ofList [(["old.tmp"], .file [0, 0, 0, 0])]
    let r := (migrate "old.tmp" "old.bin" none).run.run fs
    fs.read "old.tmp" = .ok [0, 0, 0, 0] ∧ r.1.isOk = true ∧
      FileSystem.read r.2 "old.bin" = .ok [0xA5, 0x5E, 0, 1, 0, 0, 0, 0] ∧
      FileSystem.kind? r.2 "old.tmp" = none := by
  intro fs r
  refine ⟨?_, ?_, ?_, ?_⟩
  · decide +kernel
  · decide +kernel
  · decide +kernel
  · decide +kernel

end CheckpointedLog.Command
