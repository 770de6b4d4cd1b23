import CheckpointedLog.Proofs.Files.FileProgram
import CheckpointedLog.Proofs.Files.Path
import Mathlib.Data.List.Induction

/-!
Directories along a path. A directory is created together with those it is in, one after the other; what
is created stands at the places that the path leads through.
-/
namespace CheckpointedLog

namespace FileSystem

variable {fs after : FileSystem} {names : List String} {path : String} {first place : Place}

def placeIn (place : Place) (name : String) : Place :=
  if name = ".." then place.dropLast else place ++ [name]

/-- Where names lead from a place, as long as there are directories on the way. -/
def placeAfter (first : Place) (names : List String) : Place := names.foldl placeIn first

/-- Names lead from a place through directories to a directory. -/
structure HasDirectory (fs : FileSystem) (first : Place) (names : List String) : Prop where
  walk : names.foldlM fs.enter first = .ok (placeAfter first names)
  directory : fs.entryAt (placeAfter first names) = some .directory

theorem placeAfter_concat (first : Place) (names : List String) (name : String) :
    placeAfter first (names ++ [name]) = placeIn (placeAfter first names) name := List.foldl_concat ..

theorem enter_of_directory (h : fs.entryAt place = some .directory) (name : String) :
    fs.enter place name = .ok (placeIn place name) := by
  rw [enter, requireDirectory_eq_ok_iff.mpr h]
  rfl

theorem walk_eq_ok (h : names.foldlM fs.enter first = .ok place) : place = placeAfter first names := by
  induction names using List.reverseRecOn generalizing place with
  | nil => exact (Except.ok.inj h).symm
  | append_singleton names name ih =>
    rw [List.foldlM_append] at h
    obtain ⟨mid, hmid, h⟩ := exists_of_bind_eq_ok h
    obtain ⟨next, hnext, h⟩ := exists_of_bind_eq_ok h
    obtain rfl := Except.ok.inj h
    rw [placeAfter_concat, ← ih hmid]
    exact Except.ok.inj (hnext.symm.trans (enter_of_directory (enter_ok hnext) name))

/-- After names that lead to a directory, another name can be walked. -/
theorem HasDirectory.walk_concat (h : fs.HasDirectory first names) (name : String) :
    (names ++ [name]).foldlM fs.enter first = .ok (placeAfter first (names ++ [name])) := by
  rw [List.foldlM_append, h.walk, placeAfter_concat]
  simp only [bind, Except.bind, List.foldlM_cons, enter_of_directory h.directory, List.foldlM_nil, pure,
    Except.pure]

theorem HasDirectory.of_keep (h : fs.HasDirectory first names)
    (hkeep : ∀ p, fs.entryAt p = some .directory → after.entryAt p = some .directory) :
    after.HasDirectory first names :=
  ⟨walk_of_directories hkeep h.walk, hkeep _ h.directory⟩

theorem hasDirectory_nil (h : fs.entryAt first = some .directory) : fs.HasDirectory first [] := ⟨rfl, h⟩

theorem nameIn?_eq_some_iff {directory : Place} {name : String} :
    nameIn? directory place = some name ↔ place = directory ++ [name] := by
  unfold nameIn?
  constructor
  · intro h
    split at h
    next hdirectory =>
      obtain ⟨front, rfl⟩ := List.getLast?_eq_some_iff.mp h
      rw [List.dropLast_concat] at hdirectory
      rw [hdirectory]
    next => cases h
  · rintro rfl
    rw [List.dropLast_concat, if_pos rfl, List.getLast?_concat]

theorem entryAt_insert_directory (hfree : fs.entryAt place = none) (p : Place) :
    entryAt (fs.insert place .directory) p = if p = place then some .directory else fs.entryAt p := by
  refine entryAt_insert ?_ _ p
  rintro rfl
  cases hfree

/-- Directories stay, and no file comes, where a directory is created. -/
theorem directory_of_insert (hfree : fs.entryAt place = none) (p : Place)
    (hp : fs.entryAt p = some .directory) : entryAt (fs.insert place .directory) p = some .directory := by
  rw [entryAt_insert_directory hfree]
  split
  · rfl
  · exact hp

variable [WorkingDirectory]

/-- The path of a name in a directory leads to the name at the place of the directory. -/
theorem locate_join {directory name : String} (hdirectory : directory ≠ "")
    (hname : Path.Proper name.toList) :
    fs.locate (Path.join directory name) = .ok place ↔
      fs.HasDirectory (startOf directory) (Path.names directory) ∧
        place = placeAfter (startOf directory) (Path.names directory) ++ [name] := by
  obtain ⟨front, hfront, hnames, hhead, hjoin⟩ := Path.exists_join_eq hdirectory
  have hends := Path.names_append_name hfront hname.toMoves
  have hempty := Path.isEmpty_append_name front hname.toMoves []
  have habsolute := Path.isAbsolute_append_name front hname.toMoves []
  rw [List.append_nil] at hempty habsolute
  rw [String.ofList_toList, hnames] at hends
  have hname' : name ≠ ".." := String.ofList_toList (s := name) ▸ hname.ofList_ne
  have hstart : startOf (String.ofList (front ++ name.toList)) = startOf directory := by
    rw [startOf, startOf, habsolute, hhead, Path.isAbsolute]
  rw [hjoin name hname.toMoves, locate_eq_ok_iff_of_names hends hname'
    (Path.endsInDot_append_name hfront hname.toMoves), hempty, hstart]
  refine (and_iff_right rfl).trans ⟨?_, ?_⟩
  · rintro ⟨d, hwalk, hd, rfl⟩
    obtain rfl := walk_eq_ok hwalk
    exact ⟨⟨hwalk, hd⟩, rfl⟩
  · rintro ⟨h, rfl⟩
    exact ⟨_, h.walk, h.directory, rfl⟩

/-- Directories can be created along a path, as it starts at a directory and no file stands in the way. A
dot at the end is not created. -/
structure Accessible (fs : FileSystem) (path : String) : Prop where
  start : fs.entryAt (startOf path) = some .directory
  clear : ∀ front, front <+: Path.names path → ∀ content,
    fs.entryAt (placeAfter (startOf path) front) ≠ some (.file content)
  dot : Path.endsInDot path = true → fs.HasDirectory (startOf path) (Path.names path)

namespace Accessible

theorem parent {directory : String} (h : fs.Accessible path) (hparent : Path.ParentOf path directory) :
    fs.Accessible directory := by
  have hfront := hparent.names_leads
  have hstart : startOf directory = startOf path := by rw [startOf, startOf, hparent.absolute]
  constructor
  case start => exact hstart ▸ h.start
  case clear => exact hstart ▸ fun front hon => h.clear front (hon.trans hfront)
  case dot =>
    intro hdot
    rw [hparent.dot hdot, hstart]
    exact hasDirectory_nil h.start

theorem of_keep (h : fs.Accessible path)
    (hkeep : ∀ p, fs.entryAt p = some .directory → after.entryAt p = some .directory)
    (hfile : ∀ front, front <+: Path.names path → ∀ content,
      after.entryAt (placeAfter (startOf path) front) = some (.file content) →
        ∃ content', fs.entryAt (placeAfter (startOf path) front) = some (.file content')) :
    after.Accessible path where
  start := hkeep _ h.start
  clear front hon content hat := by
    obtain ⟨content', hbefore⟩ := hfile front hon content hat
    exact h.clear front hon content' hbefore
  dot hdot := (h.dot hdot).of_keep hkeep

theorem walk_cases (h : fs.Accessible path) {front : List String} (hfront : front <+: Path.names path) :
    front.foldlM fs.enter (startOf path) = .ok (placeAfter (startOf path) front) ∨
      front.foldlM fs.enter (startOf path) = .error .notFound := by
  induction front using List.reverseRecOn with
  | nil => exact Or.inl rfl
  | append_singleton front name ih =>
    have hon : front <+: Path.names path := (List.prefix_append front [name]).trans hfront
    rcases ih hon with hwalk | hwalk
    · -- The next name can be walked if there is a directory, and no file is in the way.
      cases hentry : fs.entryAt (placeAfter (startOf path) front) with
      | none =>
        right
        rw [List.foldlM_append, hwalk]
        simp only [bind, Except.bind, List.foldlM_cons, enter, requireDirectory, hentry]
      | some entry =>
        cases entry with
        | file content => exact absurd hentry (h.clear front hon content)
        | directory => exact Or.inl (HasDirectory.walk_concat ⟨hwalk, hentry⟩ name)
    · right
      rw [List.foldlM_append, hwalk]
      rfl

end Accessible

theorem locate_of_walk (hne : path ≠ "")
    (hwalk : (Path.names path).foldlM fs.enter (startOf path) =
      .ok (placeAfter (startOf path) (Path.names path)))
    (hdot : Path.endsInDot path = true → fs.HasDirectory (startOf path) (Path.names path)) :
    fs.locate path = .ok (placeAfter (startOf path) (Path.names path)) :=
  locate_eq_ok_iff.mpr
    ⟨String.isEmpty_eq_false_iff.mpr hne, hwalk, fun hends => (hdot hends).directory⟩

theorem kind?_of_hasDirectory (hne : path ≠ "") (h : fs.HasDirectory (startOf path) (Path.names path)) :
    fs.kind? path = some .directory := by
  have hlocate := locate_of_walk hne h.walk fun _ => h
  simp only [kind?, lookUp, hlocate, bind, Except.bind, h.directory, pure, Except.pure, Entry.kind]

theorem makeDirectory_eq_ok (h : fs.makeDirectory path = .ok after) :
    fs.entryAt (placeAfter (startOf path) (Path.names path)) = none ∧
      after = fs.insert (placeAfter (startOf path) (Path.names path)) .directory := by
  obtain ⟨place, hplace, h⟩ := exists_of_bind_eq_ok h
  obtain ⟨-, hwalk, -⟩ := locate_eq_ok_iff.mp hplace
  obtain rfl := walk_eq_ok hwalk
  split at h
  · cases h
  next hfree => exact ⟨hfree, (Except.ok.inj h).symm⟩

theorem Accessible.of_insert (h : fs.Accessible path) (hfree : fs.entryAt place = none) :
    Accessible (fs.insert place .directory) path := by
  refine h.of_keep (directory_of_insert hfree) fun front _ content hat => ⟨content, ?_⟩
  rw [entryAt_insert_directory hfree] at hat
  split at hat
  · cases hat
  · exact hat

/-- A directory is created where the way to it is there, unless it is there, too. -/
theorem Accessible.makeDirectory_cases (h : fs.Accessible path) (hne : path ≠ "")
    (hwalk : (Path.names path).foldlM fs.enter (startOf path) =
      .ok (placeAfter (startOf path) (Path.names path))) :
    (∃ after, fs.makeDirectory path = .ok after ∧ after.HasDirectory (startOf path) (Path.names path)) ∨
      fs.makeDirectory path = .error .alreadyExists ∧ fs.HasDirectory (startOf path) (Path.names path) := by
  have hlocate := locate_of_walk hne hwalk h.dot
  cases hentry : fs.entryAt (placeAfter (startOf path) (Path.names path)) with
  | none =>
    refine Or.inl ⟨fs.insert (placeAfter (startOf path) (Path.names path)) .directory, ?_, ?_, ?_⟩
    · simp only [makeDirectory, hlocate, bind, Except.bind, hentry, pure, Except.pure]
    · exact walk_of_directories (directory_of_insert hentry) hwalk
    · rw [entryAt_insert_directory hentry, if_pos rfl]
  | some entry =>
    cases entry with
    | file content => exact absurd hentry (h.clear _ (List.prefix_refl _) content)
    | directory =>
      refine Or.inr ⟨?_, hwalk, hentry⟩
      simp only [makeDirectory, hlocate, bind, Except.bind, hentry, throw, throwThe,
        MonadExceptOf.throw]

theorem Accessible.makeDirectory_ne_notFound (h : fs.Accessible path) (hne : path ≠ "")
    (hwalk : (Path.names path).foldlM fs.enter (startOf path) =
      .ok (placeAfter (startOf path) (Path.names path))) :
    fs.makeDirectory path ≠ .error .notFound := by
  rcases h.makeDirectory_cases hne hwalk with ⟨after, hmade, -⟩ | ⟨hthere, -⟩
  · rw [hmade]
    exact nofun
  · rw [hthere]
    exact nofun

theorem makeDirectory_eq_notFound (hne : path ≠ "")
    (hwalk : (Path.names path).foldlM fs.enter (startOf path) = .error .notFound) :
    fs.makeDirectory path = .error .notFound := by
  have hempty : path.isEmpty = false := String.isEmpty_eq_false_iff.mpr hne
  simp only [makeDirectory, locate, hempty, Bool.false_eq_true, if_false, hwalk, bind, Except.bind]

/-- Once the directories of its parent are there, the way to a path can be walked. -/
theorem walk_of_parent {parent : String} (hof : Path.ParentOf path parent)
    (hparent : fs.HasDirectory (startOf parent) (Path.names parent)) :
    (Path.names path).foldlM fs.enter (startOf path) =
      .ok (placeAfter (startOf path) (Path.names path)) := by
  have hstart : startOf parent = startOf path := by rw [startOf, startOf, hof.absolute]
  rw [hstart] at hparent
  rcases hof.names with hsame | ⟨name, hname⟩
  · rw [hsame]
    exact hparent.walk
  · rw [hname]
    exact hparent.walk_concat name

end FileSystem

namespace FileTask

open FileSystem

variable [WorkingDirectory] {fs : FileSystem} {path : String} {depth : ℕ}

/-- A property that new directories along a path do not change is kept when such directories are
created. -/
theorem keeps_makeNested {inv : FileSystem → Prop} {first : Place} {names : List String}
    (hinv : ∀ fs front, inv fs → front <+: names → fs.entryAt (placeAfter first front) = none →
      inv (fs.insert (placeAfter first front) .directory))
    (hstart : startOf path = first) (hpath : Path.names path <+: names) :
    (makeNested depth path).run.Keeps inv := by
  -- Whatever path the recursion comes to, only the last directory on it is created at once.
  have hmake (path : String) (hstart : startOf path = first) (hpath : Path.names path <+: names)
      (fs after : FileSystem) (hfs : inv fs) (h : fs.makeDirectory path = .ok after) : inv after := by
    obtain ⟨hfree, rfl⟩ := makeDirectory_eq_ok h
    rw [hstart] at hfree ⊢
    exact hinv fs _ hfs hpath hfree
  induction depth generalizing path with
  | zero =>
    unfold makeNested
    split
    · exact trivial
    · refine ⟨hmake path hstart hpath, fun r => ?_⟩
      rcases r with e | _
      · cases e with
        | notFound => exact trivial
        | _ => exact fun k => trivial
      · exact trivial
  | succ depth ih =>
    unfold makeNested
    split
    · exact trivial
    · refine ⟨hmake path hstart hpath, fun r => ?_⟩
      rcases r with e | _
      · cases e with
        | notFound =>
          cases hparent : Path.parent? path with
          | none => exact trivial
          | some parent =>
            have hof := Path.parentOf_parent? hparent
            have hstart' : startOf parent = first := by
              rw [← hstart, startOf, startOf, hof.absolute]
            refine (ih hstart' (hof.names_leads.trans hpath)).andThen fun r => ?_
            rcases r with e | _
            · exact trivial
            · refine ⟨hmake path hstart hpath, fun r => ?_⟩
              rcases r with e | _
              · exact fun k => trivial
              · exact trivial
        | _ => exact fun k => trivial
      · exact trivial

theorem exists_makeIfMissing (h : fs.Accessible path) (hne : path ≠ "")
    (hwalk : (Path.names path).foldlM fs.enter (startOf path) =
      .ok (placeAfter (startOf path) (Path.names path))) :
    ∃ after, (makeIfMissing path).run.run fs = (.ok (), after) ∧
      after.HasDirectory (startOf path) (Path.names path) := by
  rcases h.makeDirectory_cases hne hwalk with ⟨after, hmade, hafter⟩ | ⟨hthere, hdirectory⟩
  · refine ⟨after, ?_, hafter⟩
    change FileProgram.run fs (.makeDirectory path _) = _
    simp only [FileProgram.run, hmade, FileProgram.outcome]
  · refine ⟨fs, ?_, hdirectory⟩
    change FileProgram.run fs (.makeDirectory path _) = _
    simp only [FileProgram.run, hthere, FileProgram.outcome,
      kind?_of_hasDirectory hne hdirectory, beq_self_eq_true, if_true]

theorem run_makeNested_empty (depth : ℕ) (fs : FileSystem) :
    (makeNested depth "").run.run fs = (.ok (), fs) := by
  unfold makeNested
  rfl

/-- Unless something is missing on the way, only the last directory is to be created. -/
theorem run_makeNested_of_found (hne : path ≠ "") (h : fs.makeDirectory path ≠ .error .notFound) :
    (makeNested depth path).run.run fs = (makeIfMissing path).run.run fs := by
  unfold makeNested
  rw [if_neg (by rwa [String.isEmpty_iff])]
  change FileProgram.run fs (.makeDirectory path _) = FileProgram.run fs (.makeDirectory path _)
  cases hmake : fs.makeDirectory path with
  | ok after => simp only [FileProgram.run, hmake, FileProgram.outcome]
  | error e =>
    cases e with
    | notFound => exact absurd hmake h
    | _ => simp only [FileProgram.run, hmake, FileProgram.outcome]

/-- Where something is missing on the way, the path is made after the one it is in. -/
theorem run_makeNested_of_missing {parent : String} {mid : FileSystem} (hne : path ≠ "")
    (hmissing : fs.makeDirectory path = .error .notFound) (hparent : Path.parent? path = some parent)
    (hrun : (makeNested depth parent).run.run fs = (.ok (), mid)) :
    (makeNested (depth + 1) path).run.run fs = (makeIfMissing path).run.run mid := by
  unfold makeNested
  rw [if_neg (by rwa [String.isEmpty_iff]), hparent]
  change FileProgram.run fs (.makeDirectory path _) = _
  simp only [FileProgram.run, hmissing, FileProgram.outcome]
  change FileProgram.run fs (FileProgram.andThen _ _) = _
  rw [FileProgram.run_andThen, hrun]

theorem exists_makeNested (h : fs.Accessible path) (hdepth : path.toList.length ≤ depth) :
    ∃ after, (makeNested depth path).run.run fs = (.ok (), after) ∧
      after.HasDirectory (startOf path) (Path.names path) := by
  by_cases hne : path = ""
  · subst hne
    exact ⟨fs, run_makeNested_empty depth fs, hasDirectory_nil h.start⟩
  -- The parent of a path is shorter, so that the depth lasts until the path is empty.
  induction depth generalizing path with
  | zero =>
    have hnil := List.eq_nil_of_length_eq_zero (Nat.le_zero.mp hdepth)
    exact absurd (String.toList_eq_nil_iff.mp hnil) hne
  | succ depth ih =>
    rcases h.walk_cases (List.prefix_refl _) with hwalk | hwalk
    · rw [run_makeNested_of_found hne (h.makeDirectory_ne_notFound hne hwalk)]
      exact exists_makeIfMissing h hne hwalk
    · have hnames : Path.names path ≠ [] := by
        intro hnil
        rw [hnil] at hwalk
        cases hwalk
      obtain ⟨parent, hparent⟩ := Path.exists_parent? hnames
      have hof := Path.parentOf_parent? hparent
      obtain ⟨mid, hrun, hmid⟩ : ∃ mid, (makeNested depth parent).run.run fs = (.ok (), mid) ∧
          mid.HasDirectory (startOf parent) (Path.names parent) := by
        by_cases hempty : parent = ""
        · subst hempty
          exact ⟨fs, run_makeNested_empty depth fs, hasDirectory_nil (h.parent hof).start⟩
        · have hshorter := hof.shorter
          exact ih (h.parent hof) (by omega) hempty
      -- The new directories are on the way to the path, so that it stays accessible.
      have hkeeps : (makeNested depth parent).run.Keeps (Accessible · path) := by
        have hstart : startOf parent = startOf path := by rw [startOf, startOf, hof.absolute]
        exact keeps_makeNested (fun _ _ hfs _ hfree => hfs.of_insert hfree) hstart hof.names_leads
      have hkept := hkeeps.run h
      rw [hrun] at hkept
      rw [run_makeNested_of_missing hne (makeDirectory_eq_notFound hne hwalk) hparent hrun]
      exact exists_makeIfMissing hkept hne (walk_of_parent hof hmid)

theorem exists_makeDirectories (h : fs.Accessible path) :
    ∃ after, (makeDirectories path).run.run fs = (.ok (), after) ∧
      after.HasDirectory (startOf path) (Path.names path) :=
  exists_makeNested h (Nat.le_of_eq String.length_toList)

end FileTask

end CheckpointedLog
