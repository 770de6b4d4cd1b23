import CheckpointedLog.Files.FileProgram
import CheckpointedLog.Proofs.Files.FileSystem

namespace CheckpointedLog

variable [WorkingDirectory] {α β : Type}

namespace FileProgram

/-- A program that goes on runs from the files that its first part leaves behind. -/
theorem run_andThen (p : FileProgram α) (f : α → FileProgram β) (fs : FileSystem) :
    (p.andThen f).run fs = (f (p.run fs).1).run (p.run fs).2 := by
  induction p generalizing fs with
  | done a => rfl
  | kind path next ih => exact ih _ fs
  | read path next ih => exact ih _ fs
  | list path next ih => exact ih _ fs
  | makeDirectory path next ih => exact ih _ _
  | write path content next ih => exact ih _ _
  | rename source target next ih => exact ih _ _

theorem breaksOff_andThen {p : FileProgram α} {f : α → FileProgram β} {fs after : FileSystem} :
    (p.andThen f).BreaksOff fs after ↔
      p.BreaksOff fs after ∨ (f (p.run fs).1).BreaksOff (p.run fs).2 after := by
  induction p generalizing fs with
  | done a => exact (or_iff_right id).symm
  | kind path next ih => exact (or_congr_right (ih _)).trans or_assoc.symm
  | read path next ih => exact (or_congr_right (ih _)).trans or_assoc.symm
  | list path next ih => exact (or_congr_right (ih _)).trans or_assoc.symm
  | makeDirectory path next ih => exact (or_congr_right (ih _)).trans or_assoc.symm
  | write path content next ih =>
    refine (or_congr_right ((or_congr_right (ih _)).trans or_assoc.symm)).trans or_assoc.symm
  | rename source target next ih => exact (or_congr_right (ih _)).trans or_assoc.symm

/-- Each operation of a program, with any outcomes of those before it, keeps a property of the files. -/
def Keeps (inv : FileSystem → Prop) : FileProgram α → Prop
  | done _ => True
  | kind _ next => ∀ r, (next r).Keeps inv
  | read _ next => ∀ r, (next r).Keeps inv
  | list _ next => ∀ r, (next r).Keeps inv
  | makeDirectory path next =>
    (∀ fs after, inv fs → FileSystem.makeDirectory fs path = .ok after → inv after) ∧
      ∀ r, (next r).Keeps inv
  | write path content next =>
    (∀ n fs after, inv fs → FileSystem.write fs path (content.take n) = .ok after → inv after) ∧
      ∀ r, (next r).Keeps inv
  | rename source target next =>
    (∀ fs after, inv fs → FileSystem.rename fs source target = .ok after → inv after) ∧
      ∀ r, (next r).Keeps inv

omit [WorkingDirectory] in
theorem outcome_keeps {inv : FileSystem → Prop} {fs : FileSystem} {r : Except FileError FileSystem}
    (hfs : inv fs) (h : ∀ after, r = .ok after → inv after) : inv (outcome fs r).2 := by
  cases r with
  | error e => exact hfs
  | ok after => exact h after rfl

namespace Keeps

variable {inv : FileSystem → Prop} {fs after : FileSystem}

theorem run {p : FileProgram α} (h : p.Keeps inv) (hfs : inv fs) : inv (p.run fs).2 := by
  induction p generalizing fs with
  | done a => exact hfs
  | kind path next ih => exact ih _ (h _) hfs
  | read path next ih => exact ih _ (h _) hfs
  | list path next ih => exact ih _ (h _) hfs
  | makeDirectory path next ih => exact ih _ (h.2 _) (outcome_keeps hfs (h.1 fs · hfs))
  | write path content next ih =>
    refine ih _ (h.2 _) (outcome_keeps hfs fun after hwrite => ?_)
    exact h.1 content.length fs after hfs (by rw [List.take_length]; exact hwrite)
  | rename source target next ih => exact ih _ (h.2 _) (outcome_keeps hfs (h.1 fs · hfs))

theorem breaksOff {p : FileProgram α} (h : p.Keeps inv) (hfs : inv fs) (hoff : p.BreaksOff fs after) :
    inv after := by
  induction p generalizing fs with
  | done a => exact hoff.elim
  | kind path next ih => exact hoff.elim (fun hsame => hsame ▸ hfs) (ih _ (h _) hfs)
  | read path next ih => exact hoff.elim (fun hsame => hsame ▸ hfs) (ih _ (h _) hfs)
  | list path next ih => exact hoff.elim (fun hsame => hsame ▸ hfs) (ih _ (h _) hfs)
  | makeDirectory path next ih =>
    exact hoff.elim (fun hsame => hsame ▸ hfs) (ih _ (h.2 _) (outcome_keeps hfs (h.1 fs · hfs)))
  | write path content next ih =>
    rcases hoff with hsame | ⟨n, hpart⟩ | hoff
    · exact hsame ▸ hfs
    · exact h.1 n fs after hfs hpart
    · refine ih _ (h.2 _) (outcome_keeps hfs fun mid hwrite => ?_) hoff
      exact h.1 content.length fs mid hfs (by rw [List.take_length]; exact hwrite)
  | rename source target next ih =>
    exact hoff.elim (fun hsame => hsame ▸ hfs) (ih _ (h.2 _) (outcome_keeps hfs (h.1 fs · hfs)))

theorem andThen {p : FileProgram α} {f : α → FileProgram β} (h : p.Keeps inv)
    (hf : ∀ a, (f a).Keeps inv) : (p.andThen f).Keeps inv := by
  induction p with
  | done a => exact hf a
  | kind path next ih => exact fun r => ih r (h r)
  | read path next ih => exact fun r => ih r (h r)
  | list path next ih => exact fun r => ih r (h r)
  | makeDirectory path next ih => exact ⟨h.1, fun r => ih r (h.2 r)⟩
  | write path content next ih => exact ⟨h.1, fun r => ih r (h.2 r)⟩
  | rename source target next ih => exact ⟨h.1, fun r => ih r (h.2 r)⟩

end Keeps

end FileProgram

namespace FileTask

variable {fs after : FileSystem}

theorem run_bind (t : FileTask α) (f : α → FileTask β) (fs : FileSystem) :
    (t >>= f).run.run fs = match t.run.run fs with
      | (.ok a, mid) => (f a).run.run mid
      | (.error e, mid) => (.error e, mid) := by
  change (FileProgram.andThen t.run (ExceptT.bindCont f)).run fs = _
  rw [FileProgram.run_andThen]
  rcases t.run.run fs with ⟨_ | _, mid⟩ <;> rfl

theorem exists_of_run_bind_eq_ok {t : FileTask α} {f : α → FileTask β} {b : β}
    (h : (t >>= f).run.run fs = (.ok b, after)) :
    ∃ a mid, t.run.run fs = (.ok a, mid) ∧ (f a).run.run mid = (.ok b, after) := by
  rw [run_bind] at h
  split at h
  next a mid ht => exact ⟨a, mid, ht, h⟩
  next => cases h

/-- A task ends early in its first part, or in its second one after the first has succeeded. -/
theorem breaksOff_bind {t : FileTask α} {f : α → FileTask β} :
    (t >>= f).run.BreaksOff fs after ↔
      t.run.BreaksOff fs after ∨
        ∃ a mid, t.run.run fs = (.ok a, mid) ∧ (f a).run.BreaksOff mid after := by
  change (FileProgram.andThen t.run (ExceptT.bindCont f)).BreaksOff fs after ↔ _
  rw [FileProgram.breaksOff_andThen]
  refine or_congr_right ?_
  rcases t.run.run fs with ⟨_ | a, mid⟩
  · exact ⟨False.elim, fun ⟨_, _, hrun, _⟩ => nomatch hrun⟩
  · constructor
    · exact fun h => ⟨a, mid, rfl, h⟩
    · rintro ⟨_, _, hrun, h⟩
      cases hrun
      exact h

theorem keeps_bind {inv : FileSystem → Prop} {t : FileTask α} {f : α → FileTask β}
    (h : t.run.Keeps inv) (hf : ∀ a, (f a).run.Keeps inv) : (t >>= f).run.Keeps inv := by
  refine h.andThen fun r => ?_
  cases r with
  | error e => exact trivial
  | ok a => exact hf a

@[simp]
theorem run_ofExcept (r : Except SourceError α) (fs : FileSystem) :
    (ofExcept r).run.run fs = (r, fs) := rfl

theorem run_inContext (note : String) (t : FileTask α) (fs : FileSystem) :
    (inContext note t).run.run fs =
      ((t.run.run fs).1.mapError (SourceError.inContext note), (t.run.run fs).2) :=
  FileProgram.run_andThen ..

theorem run_kind (path : String) (fs : FileSystem) :
    (kind path).run.run fs = (.ok (FileSystem.kind? fs path), fs) := rfl

/-- Reading looks first whether there is anything at the path, and changes nothing. -/
theorem run_readExisting_eq (path : String) (fs : FileSystem) :
    (readExisting path).run.run fs =
      (if (FileSystem.kind? fs path).isNone then .error (.fileNotFound path)
        else (FileSystem.read fs path).mapError fun e => .io e.message, fs) := by
  rw [readExisting, run_bind, run_kind]
  cases hnone : (FileSystem.kind? fs path).isNone with
  | true => simp only [hnone, if_true]; rfl
  | false => simp only [hnone, Bool.false_eq_true, if_false]; rfl

theorem run_readExisting {path : String} {bytes : Bytes} (h : FileSystem.read fs path = .ok bytes) :
    (readExisting path).run.run fs = (.ok bytes, fs) := by
  have hkind : (FileSystem.kind? fs path).isNone = false := by
    unfold FileSystem.kind?
    obtain ⟨entry, hentry, -⟩ := exists_of_bind_eq_ok h
    rw [hentry]
    rfl
  rw [run_readExisting_eq, hkind, if_neg Bool.false_ne_true, h]
  rfl

omit [WorkingDirectory] in
theorem run_outcome (r : Except FileError FileSystem) :
    ((FileProgram.outcome fs r).1.mapError fun e => SourceError.io e.message,
      (FileProgram.outcome fs r).2) = (.ok (), after) ↔ r = .ok after := by
  cases r with
  | error e =>
    constructor
    · intro h
      cases h
    · intro h
      cases h
  | ok fs' =>
    constructor
    · intro h
      exact congrArg Except.ok (Prod.mk.inj h).2
    · intro h
      obtain rfl := Except.ok.inj h
      rfl

theorem run_write_eq_ok_iff {path : String} {content : Bytes} :
    (write path content).run.run fs = (.ok (), after) ↔
      FileSystem.write fs path content = .ok after :=
  run_outcome (FileSystem.write fs path content)

theorem run_rename_eq_ok_iff {source target : String} :
    (rename source target).run.run fs = (.ok (), after) ↔
      FileSystem.rename fs source target = .ok after :=
  run_outcome (FileSystem.rename fs source target)

theorem read_of_run_replace {path : String} {content : Bytes}
    (h : (replace path content).run.run fs = (.ok (), after)) :
    FileSystem.read after path = .ok content := by
  obtain ⟨_, mid, hwrite, hrename⟩ := exists_of_run_bind_eq_ok h
  -- The content is written beside the file and then moved over it.
  have hbeside : FileSystem.read mid (Path.withExtension path "tmp") = .ok content :=
    FileSystem.read_of_write (run_write_eq_ok_iff.mp hwrite)
  exact FileSystem.read_of_rename hbeside (run_rename_eq_ok_iff.mp hrename)

end FileTask

end CheckpointedLog
