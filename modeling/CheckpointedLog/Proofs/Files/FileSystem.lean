import CheckpointedLog.Files.FileSystem
import CheckpointedLog.Proofs.Except
import CheckpointedLog.Proofs.SortedMap

namespace CheckpointedLog.FileSystem

variable {fs after : FileSystem}

theorem entryAt_insert {place : Place} (hplace : place ≠ []) (entry : Entry) (p : Place) :
    entryAt (fs.insert place entry) p = if p = place then some entry else fs.entryAt p := by
  unfold entryAt
  by_cases hp : p = []
  · rw [if_pos hp, if_neg (hp ▸ hplace.symm), if_pos hp]
  · rw [if_neg hp, if_neg hp, SortedMap.get?_insert]

theorem requireDirectory_eq_ok_iff {place : Place} :
    fs.requireDirectory place = .ok () ↔ fs.entryAt place = some .directory := by
  unfold requireDirectory
  cases fs.entryAt place with
  | none => simp
  | some entry => cases entry <;> simp

theorem enter_ok {place place' : Place} {name : String} (h : fs.enter place name = .ok place') :
    fs.entryAt place = some .directory := by
  obtain ⟨_, hdirectory, -⟩ := exists_of_bind_eq_ok h
  exact requireDirectory_eq_ok_iff.mp hdirectory

theorem enter_eq_ok_iff {place place' : Place} {name : String} (hname : name ≠ "..") :
    fs.enter place name = .ok place' ↔
      fs.entryAt place = some .directory ∧ place' = place ++ [name] := by
  rw [← requireDirectory_eq_ok_iff, enter]
  cases fs.requireDirectory place with
  | error e => simp [bind, Except.bind]
  | ok _ =>
    simp only [bind, Except.bind, if_neg hname, pure, Except.pure, Except.ok.injEq, true_and]
    exact eq_comm

/-- A way is walked name by name, and at each name it can be walked on as long as the directories on it
stay. -/
theorem walk_of_directories {names : List String} {first place : Place}
    (hkeep : ∀ p, fs.entryAt p = some .directory → after.entryAt p = some .directory)
    (h : names.foldlM fs.enter first = .ok place) : names.foldlM after.enter first = .ok place := by
  have henter (place place' : Place) (name : String) (h : fs.enter place name = .ok place') :
      after.enter place name = .ok place' := by
    have hdirectory := enter_ok h
    rw [enter, requireDirectory_eq_ok_iff.mpr hdirectory] at h
    rw [enter, requireDirectory_eq_ok_iff.mpr (hkeep place hdirectory)]
    exact h
  induction names generalizing first with
  | nil => exact h
  | cons name names ih =>
    rw [List.foldlM_cons] at h ⊢
    obtain ⟨next, hnext, h⟩ := exists_of_bind_eq_ok h
    rw [henter first next name hnext]
    exact ih h

variable [WorkingDirectory]

/-- A path leads to a place by its names, one after the other. -/
theorem locate_eq_ok_iff {path : String} {place : Place} :
    fs.locate path = .ok place ↔ path.isEmpty = false ∧
      (Path.names path).foldlM fs.enter (startOf path) = .ok place ∧
      (Path.endsInDot path = true → fs.entryAt place = some .directory) := by
  constructor
  · intro h
    rw [locate] at h
    split at h
    · cases h
    next hpath =>
    rw [Bool.not_eq_true] at hpath
    obtain ⟨last, hwalk, h⟩ := exists_of_bind_eq_ok h
    split at h
    next =>
      obtain ⟨_, hdirectory, h⟩ := exists_of_bind_eq_ok h
      obtain rfl := Except.ok.inj h
      exact ⟨hpath, hwalk, fun _ => requireDirectory_eq_ok_iff.mp hdirectory⟩
    next hdot =>
      obtain rfl := Except.ok.inj h
      exact ⟨hpath, hwalk, fun hends => absurd hends hdot⟩
  · rintro ⟨hpath, hwalk, hdot⟩
    rw [locate, hpath, if_neg Bool.false_ne_true, hwalk]
    cases hends : Path.endsInDot path with
    | false => rfl
    | true =>
      have hdirectory := requireDirectory_eq_ok_iff.mpr (hdot hends)
      simp only [bind, Except.bind, if_true, hdirectory, pure, Except.pure]

/-- A path that ends in a name of its own leads to the name in a directory. -/
theorem locate_eq_ok_iff_of_names {path : String} {front : List String} {name : String} {place : Place}
    (hnames : Path.names path = front ++ [name]) (hname : name ≠ "..")
    (hdot : Path.endsInDot path = false) :
    fs.locate path = .ok place ↔ path.isEmpty = false ∧
      ∃ directory, front.foldlM fs.enter (startOf path) = .ok directory ∧
        fs.entryAt directory = some .directory ∧ place = directory ++ [name] := by
  rw [locate_eq_ok_iff, hdot, hnames, List.foldlM_append]
  constructor
  · rintro ⟨hpath, hwalk, -⟩
    obtain ⟨directory, hfront, hlast⟩ := exists_of_bind_eq_ok hwalk
    obtain ⟨next, hnext, hend⟩ := exists_of_bind_eq_ok hlast
    obtain rfl := Except.ok.inj hend
    obtain ⟨hdirectory, rfl⟩ := (enter_eq_ok_iff hname).mp hnext
    exact ⟨hpath, directory, hfront, hdirectory, rfl⟩
  · rintro ⟨hpath, directory, hfront, hdirectory, rfl⟩
    refine ⟨hpath, ?_, nofun⟩
    have hnext := (enter_eq_ok_iff hname).mpr ⟨hdirectory, rfl⟩
    simp only [hfront, bind, Except.bind, List.foldlM_cons, hnext, List.foldlM_nil, pure, Except.pure]

/-- A path leads to the same place as long as the directories on its way stay. -/
theorem locate_of_directories {path : String} {place : Place}
    (hkeep : ∀ p, fs.entryAt p = some .directory → after.entryAt p = some .directory)
    (h : fs.locate path = .ok place) : after.locate path = .ok place := by
  obtain ⟨hpath, hwalk, hdot⟩ := locate_eq_ok_iff.mp h
  exact locate_eq_ok_iff.mpr
    ⟨hpath, walk_of_directories hkeep hwalk, fun hends => hkeep place (hdot hends)⟩

theorem read_eq_ok_iff {path : String} {content : Bytes} :
    fs.read path = .ok content ↔ ∃ place, fs.locate path = .ok place ∧
      fs.entryAt place = some (.file content) ∧ Path.meansDirectory path = false := by
  constructor
  · intro h
    obtain ⟨entry, hentry, h⟩ := exists_of_bind_eq_ok h
    obtain ⟨place, hplace, hentry⟩ := exists_of_bind_eq_ok hentry
    split at h
    · cases h
    next found =>
    obtain rfl := Except.ok.inj h
    refine ⟨place, hplace, ?_⟩
    split at hentry
    · cases hentry
    next content' hat =>
      split at hentry
      · cases hentry
      next hdirectory =>
        obtain rfl := Entry.file.inj (Except.ok.inj hentry)
        exact ⟨hat, Bool.eq_false_iff.mpr hdirectory⟩
    · cases hentry
  · rintro ⟨place, hplace, hat, hdirectory⟩
    rw [FileSystem.read, lookUp, hplace]
    simp only [bind, Except.bind, hat, hdirectory, Bool.false_eq_true, if_false, pure, Except.pure]

/-- A path that leads to nothing, or nowhere, means nothing. -/
theorem kind?_eq_none {path : String}
    (h : ∀ place, fs.locate path = .ok place → fs.entryAt place = none) : fs.kind? path = none := by
  unfold kind?
  split
  next entry hentry =>
    obtain ⟨place, hplace, hat⟩ := exists_of_bind_eq_ok hentry
    rw [h place hplace] at hat
    cases hat
  next => rfl

theorem exists_write {path : String} {place : Place} (content : Bytes) (hplace : fs.locate path = .ok place)
    (hfile : fs.entryAt place ≠ some .directory) (hpath : Path.meansDirectory path = false) :
    ∃ after, fs.write path content = .ok after := by
  refine ⟨fs.insert place (.file content), ?_⟩
  have hfile' : (fs.entryAt place == some .directory) = false := beq_eq_false_iff_ne.mpr hfile
  simp only [write, hplace, hpath, hfile', bind, Except.bind, pure, Except.pure, Bool.or_self,
    Bool.false_eq_true, if_false]

theorem write_eq_ok {path : String} {content : Bytes} (h : fs.write path content = .ok after) :
    ∃ place, fs.locate path = .ok place ∧ fs.entryAt place ≠ some .directory ∧
      Path.meansDirectory path = false ∧ after = fs.insert place (.file content) := by
  obtain ⟨place, hplace, h⟩ := exists_of_bind_eq_ok h
  simp only at h
  split at h
  · cases h
  next hfile =>
    rw [Bool.or_eq_true, not_or, Bool.not_eq_true, beq_iff_eq] at hfile
    exact ⟨place, hplace, hfile.2, hfile.1, (Except.ok.inj h).symm⟩

theorem rename_eq_ok {source target : String} (h : fs.rename source target = .ok after) :
    ∃ content sourcePlace place, fs.read source = .ok content ∧ fs.locate source = .ok sourcePlace ∧
      fs.locate target = .ok place ∧ fs.entryAt place ≠ some .directory ∧
      Path.meansDirectory target = false ∧
      after = (fs.filter fun p _ => p != sourcePlace).insert place (.file content) := by
  obtain ⟨content, hcontent, h⟩ := exists_of_bind_eq_ok h
  obtain ⟨sourcePlace, hsource, h⟩ := exists_of_bind_eq_ok h
  obtain ⟨place, hplace, h⟩ := exists_of_bind_eq_ok h
  simp only at h
  split at h
  · cases h
  split at h
  · cases h
  next hdirectory =>
  split at h
  · cases h
  next hfile =>
    rw [beq_iff_eq] at hfile
    exact ⟨content, sourcePlace, place, hcontent, hsource, hplace, hfile, Bool.eq_false_iff.mpr hdirectory,
      (Except.ok.inj h).symm⟩

omit [WorkingDirectory] in
theorem ne_nil_of_entryAt {place : Place} (h : fs.entryAt place ≠ some .directory) : place ≠ [] := by
  rintro rfl
  exact h rfl

/-- A file that stands where no directory was is read at its path, if the directories stay. -/
theorem read_insert {path : String} {place : Place} {content : Bytes} {fs' : FileSystem}
    (hkeep : ∀ p, fs.entryAt p = some .directory → fs'.entryAt p = some .directory)
    (hplace : fs.locate path = .ok place) (hfile : fs.entryAt place ≠ some .directory)
    (hpath : Path.meansDirectory path = false) :
    FileSystem.read (fs'.insert place (.file content)) path = .ok content := by
  have hne := ne_nil_of_entryAt hfile
  refine read_eq_ok_iff.mpr ⟨place, locate_of_directories (fun p hp => ?_) hplace, ?_, hpath⟩
  · have hother : p ≠ place := by
      rintro rfl
      exact hfile hp
    rw [entryAt_insert hne, if_neg hother]
    exact hkeep p hp
  · rw [entryAt_insert hne, if_pos rfl]

theorem read_of_write {path : String} {content : Bytes} (h : fs.write path content = .ok after) :
    FileSystem.read after path = .ok content := by
  obtain ⟨place, hplace, hfile, hpath, rfl⟩ := write_eq_ok h
  exact read_insert (fun _ hp => hp) hplace hfile hpath

theorem read_of_rename {source target : String} {content : Bytes}
    (hsource : fs.read source = .ok content) (h : fs.rename source target = .ok after) :
    FileSystem.read after target = .ok content := by
  obtain ⟨content', sourcePlace, place, hread, hlocate, hplace, hfile, hpath, rfl⟩ := rename_eq_ok h
  obtain rfl := Except.ok.inj (hsource.symm.trans hread)
  refine read_insert (fun p hp => ?_) hplace hfile hpath
  obtain ⟨place', hlocate', hat, -⟩ := read_eq_ok_iff.mp hread
  obtain rfl := Except.ok.inj (hlocate'.symm.trans hlocate)
  -- The source is a file, so that no directory goes with it.
  have hother : p ≠ place' := by
    rintro rfl
    cases hat.symm.trans hp
  unfold entryAt at hp ⊢
  split
  · rfl
  next hp' =>
    rw [if_neg hp'] at hp
    rw [SortedMap.get?_filter (fun p _ => p != place'), hp]
    simp [hother]

end CheckpointedLog.FileSystem
