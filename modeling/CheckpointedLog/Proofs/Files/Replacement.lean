import CheckpointedLog.Proofs.Files.FileProgram
import CheckpointedLog.Proofs.Files.Path

/-!
What a replacement of a file leaves behind. The new content is first written beside the file, under its
name with another extension. So there is a second place that a replacement touches: what stood there is
gone once the content was moved, and is overwritten for good if the content cannot be moved.
-/
namespace CheckpointedLog

variable [WorkingDirectory]

namespace FileSystem

variable {fs mid after : FileSystem} {path source : String} {content : Bytes} {place : Place}

omit [WorkingDirectory] in
theorem entryAt_filter (hplace : place ≠ []) (q : Place) :
    entryAt (fs.filter fun p _ => p != place) q = if q = place then none else fs.entryAt q := by
  unfold entryAt
  by_cases hq : q = []
  · rw [if_pos hq, if_pos hq, if_neg (hq ▸ hplace.symm)]
  · rw [if_neg hq, if_neg hq, SortedMap.get?_filter (fun p _ => p != place)]
    by_cases hsame : q = place
    · cases fs.get? q <;> simp [hsame]
    · cases fs.get? q <;> simp [hsame]

theorem entryAt_of_write (h : fs.write path content = .ok after) :
    ∃ place, fs.locate path = .ok place ∧ fs.entryAt place ≠ some .directory ∧
      ∀ q, after.entryAt q = if q = place then some (.file content) else fs.entryAt q := by
  obtain ⟨place, hplace, hfile, -, rfl⟩ := write_eq_ok h
  exact ⟨place, hplace, hfile, entryAt_insert (ne_nil_of_entryAt hfile) _⟩

theorem entryAt_of_rename (hsource : fs.read source = .ok content)
    (h : fs.rename source path = .ok after) :
    ∃ sourcePlace place, fs.locate source = .ok sourcePlace ∧ fs.locate path = .ok place ∧
      fs.entryAt place ≠ some .directory ∧
      ∀ q, after.entryAt q = if q = place then some (.file content)
        else if q = sourcePlace then none else fs.entryAt q := by
  obtain ⟨content', sourcePlace, place, hread, hlocate, hplace, hfile, -, rfl⟩ := rename_eq_ok h
  obtain rfl := Except.ok.inj (hsource.symm.trans hread)
  refine ⟨sourcePlace, place, hlocate, hplace, hfile, fun q => ?_⟩
  have hne : sourcePlace ≠ [] := by
    obtain ⟨place', hlocate', hat, -⟩ := read_eq_ok_iff.mp hread
    obtain rfl := Except.ok.inj (hlocate'.symm.trans hlocate)
    exact ne_nil_of_entryAt (by rw [hat]; exact nofun)
  rw [entryAt_insert (ne_nil_of_entryAt hfile), entryAt_filter hne]

/-- After a file was written, every path leads to the place it led to before. -/
theorem locate_of_write (h : fs.write source content = .ok mid) :
    mid.locate path = .ok place ↔ fs.locate path = .ok place := by
  obtain ⟨place', -, hfile, hentry⟩ := entryAt_of_write h
  constructor
  · refine locate_of_directories fun p hp => ?_
    rw [hentry] at hp
    split at hp
    · cases hp
    · exact hp
  · refine locate_of_directories fun p hp => ?_
    have hother : p ≠ place' := by
      rintro rfl
      exact hfile hp
    rw [hentry, if_neg hother]
    exact hp

/-- A file can come to stand where the path leads. -/
structure Replaceable (fs : FileSystem) (path : String) : Prop where
  name : Path.endsInDots path = false
  file : Path.meansDirectory path = false
  free : ∀ place, fs.locate path = .ok place → fs.entryAt place ≠ some .directory

/-- Nothing else stands where a new content of the file is written first. -/
def HasRoomBeside (fs : FileSystem) (path : String) : Prop :=
  ∀ place, fs.locate (Path.withExtension path "tmp") = .ok place →
    fs.locate path = .ok place ∨ fs.entryAt place = none

/-- All files but the one that the path leads to are as before. -/
def SameElsewhere (fs : FileSystem) (path : String) (after : FileSystem) : Prop :=
  ∀ place, fs.locate path ≠ .ok place → after.entryAt place = fs.entryAt place

/-- Where something can be written beside a file, the path of the file leads to a place, too. -/
theorem exists_locate_of_beside (hpath : Path.meansDirectory path = false)
    (h : fs.locate (Path.withExtension path "tmp") = .ok place) :
    ∃ place', fs.locate path = .ok place' := by
  rcases Path.withExtension_cases path "tmp" (by decide) (by decide) (by decide) with
    hsame | ⟨front, name, name', hsplit, hname, hname', hbeside⟩
  · exact ⟨place, hsame ▸ h⟩
  · rw [Path.meansDirectory, Bool.or_eq_false_iff] at hpath
    have hnames' := Path.names_append_name hsplit.leads hname'.toMoves
    have hdot' := Path.endsInDot_append_name hsplit.leads hname'.toMoves
    have habsolute' := Path.isAbsolute_append_name front hname'.toMoves []
    rw [List.append_nil] at habsolute'
    obtain ⟨rest, hrest⟩ := hsplit.eq_ofList
    have hvoid : path.isEmpty = false := hrest ▸ Path.isEmpty_append_name front hname.toMoves rest
    have habsolute : Path.isAbsolute path = (front.head? == some '/') :=
      hrest ▸ Path.isAbsolute_append_name front hname.toMoves rest
    have hstart : startOf path = startOf (String.ofList (front ++ name')) := by
      rw [startOf, startOf, habsolute, habsolute']
    rw [hbeside, locate_eq_ok_iff_of_names hnames' hname'.ofList_ne hdot', ← hstart] at h
    obtain ⟨-, directory, hwalk, hdirectory, -⟩ := h
    refine ⟨directory ++ [String.ofList name], ?_⟩
    rw [locate_eq_ok_iff_of_names (hsplit.names_eq hname.toMoves) hname.ofList_ne hpath.2]
    exact ⟨hvoid, directory, hwalk, hdirectory, rfl⟩

theorem exists_rename_of_write
    (hwrite : fs.write (Path.withExtension path "tmp") content = .ok mid) (h : fs.Replaceable path) :
    ∃ after, mid.rename (Path.withExtension path "tmp") path = .ok after := by
  obtain ⟨beside, hbeside, -, hentry⟩ := entryAt_of_write hwrite
  obtain ⟨place, hplace⟩ := exists_locate_of_beside h.file hbeside
  have hread : mid.read (Path.withExtension path "tmp") = .ok content := read_of_write hwrite
  have hfile : mid.entryAt place ≠ some .directory := by
    rw [hentry]
    split
    · exact nofun
    · exact h.free place hplace
  have hfile' : (mid.entryAt place == some .directory) = false := beq_eq_false_iff_ne.mpr hfile
  refine ⟨(mid.filter fun p _ => p != beside).insert place (.file content), ?_⟩
  simp only [rename, hread, (locate_of_write hwrite).mpr hbeside, (locate_of_write hwrite).mpr hplace,
    h.name, h.file, hfile', bind, Except.bind, pure, Except.pure, Bool.false_eq_true, if_false]

/-- What a task that replaces the file at a path may do to the files. -/
structure Confined (fs : FileSystem) (path : String) (succeeds : Bool) (after : FileSystem) : Prop where
  /-- At most two places are touched: that of the file and the one beside it. -/
  elsewhere : ∀ place, fs.locate path ≠ .ok place →
    fs.locate (Path.withExtension path "tmp") ≠ .ok place → after.entryAt place = fs.entryAt place
  /-- A success leaves all other files alone exactly if no other file stood beside. -/
  success : succeeds = true → (fs.SameElsewhere path after ↔ fs.HasRoomBeside path)
  /-- A failure changes nothing, unless the new content was left beside a file that it cannot replace. -/
  failure : succeeds = false → after = fs ∨
    ¬ fs.Replaceable path ∧ ∃ content, fs.write (Path.withExtension path "tmp") content = .ok after
  /-- In any case a failure leaves the file itself as it was, if that is not the one beside it. -/
  kept : succeeds = false → ∀ place, fs.locate (Path.withExtension path "tmp") ≠ .ok place →
    after.entryAt place = fs.entryAt place
  /-- Where the file can be replaced and has room beside it, no other file is touched, and after a failure
  all files are as before. -/
  clean : fs.Replaceable path → fs.HasRoomBeside path →
    fs.SameElsewhere path after ∧ (succeeds = false → after = fs)

namespace Confined

theorem unchanged (fs : FileSystem) (path : String) : fs.Confined path false fs where
  elsewhere _ _ _ := rfl
  success := nofun
  failure _ := Or.inl rfl
  kept _ _ _ := rfl
  clean _ _ := ⟨fun _ _ => rfl, fun _ => rfl⟩

theorem moved (hwrite : fs.write (Path.withExtension path "tmp") content = .ok mid)
    (hrename : mid.rename (Path.withExtension path "tmp") path = .ok after) :
    fs.Confined path true after := by
  obtain ⟨beside, hbeside, -, hmid⟩ := entryAt_of_write hwrite
  obtain ⟨beside', place, hbeside', hplace, -, hafter⟩ :=
    entryAt_of_rename (read_of_write hwrite) hrename
  rw [locate_of_write hwrite] at hbeside' hplace
  obtain rfl := Except.ok.inj (hbeside.symm.trans hbeside')
  -- What stood beside the file is gone.
  have hentry (q : Place) (hq : fs.locate path ≠ .ok q) :
      after.entryAt q = if q = beside then none else fs.entryAt q := by
    have hne : q ≠ place := by
      rintro rfl
      exact hq hplace
    rw [hafter, if_neg hne, hmid]
    split
    · rfl
    · rfl
  have hsame : fs.HasRoomBeside path → fs.SameElsewhere path after := by
    intro hroom q hq
    rw [hentry q hq]
    split
    next hqb =>
      subst hqb
      exact ((hroom q hbeside).resolve_left hq).symm
    next => rfl
  constructor
  case elsewhere =>
    intro q hq hqb
    have hne : q ≠ beside := by
      rintro rfl
      exact hqb hbeside
    rw [hentry q hq, if_neg hne]
  case success =>
    refine fun _ => ⟨fun h q hqb => ?_, hsame⟩
    obtain rfl := Except.ok.inj (hbeside.symm.trans hqb)
    refine or_iff_not_imp_left.mpr fun hq => ?_
    rw [← h beside hq, hentry beside hq, if_pos rfl]
  case failure => exact nofun
  case kept => exact nofun
  case clean => exact fun _ hroom => ⟨hsame hroom, nofun⟩

theorem unmoved {e : FileError}
    (hwrite : fs.write (Path.withExtension path "tmp") content = .ok mid)
    (hrename : mid.rename (Path.withExtension path "tmp") path = .error e) :
    fs.Confined path false mid := by
  obtain ⟨beside, hbeside, -, hmid⟩ := entryAt_of_write hwrite
  have hstuck : ¬ fs.Replaceable path := by
    intro h
    obtain ⟨after, hafter⟩ := exists_rename_of_write hwrite h
    cases hrename.symm.trans hafter
  have hkept (q : Place) (hqb : fs.locate (Path.withExtension path "tmp") ≠ .ok q) :
      mid.entryAt q = fs.entryAt q := by
    have hne : q ≠ beside := by
      rintro rfl
      exact hqb hbeside
    rw [hmid, if_neg hne]
  constructor
  case elsewhere => exact fun q _ hqb => hkept q hqb
  case success => exact nofun
  case failure => exact fun _ => Or.inr ⟨hstuck, content, hwrite⟩
  case kept => exact fun _ => hkept
  case clean => exact fun h _ => absurd h hstuck

end Confined

end FileSystem

namespace FileTask

variable {fs : FileSystem} {path : String} {content : Bytes}

/-- What a replacement may come to: the new content is in its place, or it could not be written beside
the file, or it was written there and could not be moved. -/
inductive Replacing (fs : FileSystem) (path : String) (content : Bytes) :
    Except SourceError Unit × FileSystem → Prop where
  | moved {mid after : FileSystem}
      (hwrite : fs.write (Path.withExtension path "tmp") content = .ok mid)
      (hrename : mid.rename (Path.withExtension path "tmp") path = .ok after) :
    Replacing fs path content (.ok (), after)
  | unwritten {e : FileError} (hwrite : fs.write (Path.withExtension path "tmp") content = .error e) :
    Replacing fs path content (.error (.io e.message), fs)
  | unmoved {mid : FileSystem} {e : FileError}
      (hwrite : fs.write (Path.withExtension path "tmp") content = .ok mid)
      (hrename : mid.rename (Path.withExtension path "tmp") path = .error e) :
    Replacing fs path content (.error (.io e.message), mid)

theorem run_replace (fs : FileSystem) (path : String) (content : Bytes) :
    Replacing fs path content ((replace path content).run.run fs) := by
  have hrunWrite : (write (Path.withExtension path "tmp") content).run.run fs =
      ((FileProgram.outcome fs (fs.write (Path.withExtension path "tmp") content)).1.mapError
          fun e => .io e.message,
        (FileProgram.outcome fs (fs.write (Path.withExtension path "tmp") content)).2) := rfl
  have hrunRename (mid : FileSystem) : (rename (Path.withExtension path "tmp") path).run.run mid =
      ((FileProgram.outcome mid (mid.rename (Path.withExtension path "tmp") path)).1.mapError
          fun e => .io e.message,
        (FileProgram.outcome mid (mid.rename (Path.withExtension path "tmp") path)).2) := rfl
  rw [replace, run_bind, hrunWrite]
  cases hwrite : fs.write (Path.withExtension path "tmp") content with
  | error e => exact .unwritten hwrite
  | ok mid =>
    simp only [FileProgram.outcome, Except.mapError, hrunRename]
    cases hrename : mid.rename (Path.withExtension path "tmp") path with
    | error e => exact .unmoved hwrite hrename
    | ok after => exact .moved hwrite hrename

/-- A replacement that ends early has written at most a part of the content beside the file. -/
theorem breaksOff_replace {after : FileSystem} :
    (replace path content).run.BreaksOff fs after ↔
      after = fs ∨ ∃ n, fs.write (Path.withExtension path "tmp") (content.take n) = .ok after := by
  rw [replace, breaksOff_bind]
  constructor
  · rintro (hwrite | ⟨_, mid, hwrite, hrename⟩)
    · rcases hwrite with hsame | hpart | hdone
      · exact Or.inl hsame
      · exact Or.inr hpart
      · exact hdone.elim
    · rw [run_write_eq_ok_iff] at hwrite
      rcases hrename with hsame | hdone
      · refine Or.inr ⟨content.length, ?_⟩
        rw [List.take_length, hsame]
        exact hwrite
      · exact hdone.elim
  · rintro (hsame | hpart)
    · exact Or.inl (Or.inl hsame)
    · exact Or.inl (Or.inr (Or.inl hpart))

theorem replace_confined (fs : FileSystem) (path : String) (content : Bytes) :
    fs.Confined path ((replace path content).run.run fs).1.isOk
      ((replace path content).run.run fs).2 := by
  have hcases := run_replace fs path content
  generalize (replace path content).run.run fs = r at hcases ⊢
  cases hcases with
  | moved hwrite hrename => exact .moved hwrite hrename
  | unwritten => exact .unchanged fs path
  | unmoved hwrite hrename => exact .unmoved hwrite hrename

end FileTask

end CheckpointedLog
