import CheckpointedLog.Proofs.Files.Directories
import CheckpointedLog.Proofs.Files.Replacement
import CheckpointedLog.Proofs.Text.Digits
import CheckpointedLog.Snapshot.Store
import Mathlib.Data.List.Pairwise
import Mathlib.Data.List.Sort

/-!
A store is a map from checkpoints to snapshots. What it holds can be read off its directory: a snapshot is
the file under the name of its checkpoint, and no other name in the directory counts as one. Saving changes
one snapshot, in one step; before it, and after a failure, the directory says what it said before.
-/
namespace CheckpointedLog.SnapshotStore

/-- The name of a file without its extension. -/
def baseName (id : UInt64) : List Char := "snapshot-".toList ++ (toString id.toNat).toList

/-- The name under which a snapshot is first written. -/
def besideName (id : UInt64) : String := String.ofList (baseName id ++ '.' :: "tmp".toList)

theorem toList_fileName (id : UInt64) : (fileName id).toList = baseName id ++ '.' :: "bin".toList := by
  unfold fileName baseName
  simp only [String.toList_append]
  simp

theorem toList_besideName (id : UInt64) : (besideName id).toList = baseName id ++ '.' :: "tmp".toList :=
  String.toList_ofList

theorem slash_not_mem_baseName (id : UInt64) : '/' ∉ baseName id := by
  unfold baseName
  rw [List.mem_append, not_or]
  refine ⟨by simp, fun h => ?_⟩
  exact absurd (Decimal.isDigit_of_mem_toString h) (by decide)

theorem baseName_ne_nil (id : UInt64) : baseName id ≠ [] := by
  unfold baseName
  simp

theorem proper_baseName (id : UInt64) {extension : List Char} (h : '/' ∉ extension) :
    Path.Proper (baseName id ++ '.' :: extension) := by
  have hhead : (baseName id ++ '.' :: extension).head? = some 's' := rfl
  constructor
  case toMoves =>
    constructor
    case slash =>
      rw [List.mem_append, List.mem_cons, not_or, not_or]
      exact ⟨slash_not_mem_baseName id, by decide, h⟩
    case nonempty => simp
    case dot =>
      intro hdot
      rw [hdot] at hhead
      cases hhead
  case dots =>
    intro hdots
    rw [hdots] at hhead
    cases hhead

theorem proper_fileName (id : UInt64) : Path.Proper (fileName id).toList :=
  toList_fileName id ▸ proper_baseName id (by decide)

theorem proper_besideName (id : UInt64) : Path.Proper (besideName id).toList :=
  toList_besideName id ▸ proper_baseName id (by decide)

/-- A name counts for a checkpoint by what stands between its beginning and its extension. -/
theorem idOf?_ofList (digits : List Char) :
    idOf? (String.ofList ("snapshot-".toList ++ (digits ++ ".bin".toList))) = Decimal.uint64? digits := by
  have hopening :
      "snapshot-".toList.isPrefixOf ("snapshot-".toList ++ (digits ++ ".bin".toList)) = true :=
    List.isPrefixOf_iff_prefix.mpr (List.prefix_append _ _)
  have hrest : ("snapshot-".toList ++ (digits ++ ".bin".toList)).drop "snapshot-".length =
      digits ++ ".bin".toList := List.drop_left
  have hending : (".bin".toList.isSuffixOf (digits ++ ".bin".toList)) = true :=
    List.isSuffixOf_iff_suffix.mpr (List.suffix_append _ _)
  have hdigits : (digits ++ ".bin".toList).take ((digits ++ ".bin".toList).length - ".bin".length) =
      digits := by
    rw [List.length_append, show ".bin".length = ".bin".toList.length from rfl, Nat.add_sub_cancel,
      List.take_left]
  unfold idOf?
  rw [String.toList_ofList]
  dsimp only
  rw [if_pos hopening, hrest, if_pos hending, hdigits]

theorem idOf?_fileName (id : UInt64) : idOf? (fileName id) = some id := by
  have hname : fileName id =
      String.ofList ("snapshot-".toList ++ ((toString id.toNat).toList ++ ".bin".toList)) := by
    apply String.toList_inj.mp
    rw [toList_fileName, String.toList_ofList]
    unfold baseName
    simp
  rw [hname, idOf?_ofList, Decimal.uint64?_toString]

/-- The name under which a snapshot is first written does not count. -/
theorem idOf?_besideName (id : UInt64) : idOf? (besideName id) = none := by
  unfold idOf?
  rw [toList_besideName]
  dsimp only
  split
  · split
    next hending =>
      -- The two extensions do not end with the same letter.
      obtain ⟨front, hfront⟩ :=
        (List.isSuffixOf_iff_suffix.mp hending).trans (List.drop_suffix ..)
      have hlast := congrArg List.getLast? hfront
      simp at hlast
    · rfl
  · rfl

theorem fileName_injective : Function.Injective fileName := by
  intro id other h
  have hid := congrArg idOf? h
  rw [idOf?_fileName, idOf?_fileName] at hid
  exact Option.some.inj hid

variable {store : SnapshotStore} {fs₀ fs after : FileSystem} {m : UInt64 → Option Bytes} {id : UInt64}
  {bytes : Bytes}

/-- The names that a store uses: those that count for a checkpoint, and those under which snapshots are
first written. -/
def Own (name : String) : Prop := (idOf? name).isSome = true ∨ ∃ id, name = besideName id

theorem own_fileName (id : UInt64) : Own (fileName id) := Or.inl (by rw [idOf?_fileName]; rfl)

theorem own_besideName (id : UInt64) : Own (besideName id) := Or.inr ⟨id, rfl⟩

theorem besideName_ne {name : String} (hname : (idOf? name).isSome = true) (id : UInt64) :
    name ≠ besideName id := by
  rintro rfl
  rw [idOf?_besideName] at hname
  cases hname

theorem name_ne {place : Place} {name other : String} (h : name ≠ other) :
    place ++ [name] ≠ place ++ [other] := by
  simpa using h

theorem ne_of_directory {p q : Place} (hq : fs.entryAt q ≠ some .directory)
    (hp : fs.entryAt p = some .directory) : p ≠ q := by
  rintro rfl
  exact hq hp

/-- Different names count for different checkpoints, unless two of them count for the same one. -/
theorem nodup_ids_iff {names : List String} (hnames : names.Nodup) :
    (names.filterMap idOf?).Nodup ↔
      ∀ a ∈ names, ∀ b ∈ names, ∀ id, idOf? a = some id → idOf? b = some id → a = b := by
  rw [List.Nodup, List.pairwise_filterMap]
  constructor
  · intro h a ha b hb id hid hid'
    by_contra hne
    have hsymm : Std.Symm fun a b : String =>
        ∀ id, idOf? a = some id → ∀ other, idOf? b = some other → id ≠ other :=
      ⟨fun a b h id hid other hother => (h other hother id hid).symm⟩
    exact h.forall ha hb hne id hid id hid' rfl
  · intro h
    refine hnames.imp_of_mem fun ha hb hne => ?_
    rintro id hid other hother rfl
    exact hne (h _ ha _ hb id hid hother)

theorem pairwise_lt_mergeSort {ids : List UInt64} (h : ids.Nodup) :
    (ids.mergeSort fun a b => a ≤ b).Pairwise (· < ·) := by
  have hle : (ids.mergeSort fun a b => a ≤ b).Pairwise fun a b => decide (a ≤ b) = true := by
    refine List.pairwise_mergeSort (fun a b c hab hbc => ?_) (fun a b => ?_) ids
    · exact decide_eq_true (UInt64.le_trans (of_decide_eq_true hab) (of_decide_eq_true hbc))
    · simpa using UInt64.le_total a b
  have hne : (ids.mergeSort fun a b => a ≤ b).Nodup := (List.mergeSort_perm _ _).nodup_iff.mpr h
  exact hle.imp₂ (fun a b hab hab' => UInt64.lt_of_le_of_ne (of_decide_eq_true hab) hab') hne

theorem withExtension_pathOf (hnamed : store.directory ≠ "") (id : UInt64) :
    Path.withExtension (store.pathOf id) "tmp" = Path.join store.directory (besideName id) := by
  obtain ⟨front, hfront, -, -, hjoin⟩ := Path.exists_join_eq hnamed
  rw [pathOf, hjoin _ (proper_fileName id).toMoves, hjoin _ (proper_besideName id).toMoves,
    toList_fileName, toList_besideName, Path.withExtension_append_name hfront
      (slash_not_mem_baseName id) (by decide) (by decide) (by decide) (baseName_ne_nil id)]

theorem ends_name (hnamed : store.directory ≠ "") {name : String} (hname : Path.Proper name.toList) :
    Path.meansDirectory (Path.join store.directory name) = false ∧
      Path.endsInDots (Path.join store.directory name) = false := by
  obtain ⟨front, hfront, -, -, hjoin⟩ := Path.exists_join_eq hnamed
  rw [hjoin name hname.toMoves]
  exact ⟨Path.meansDirectory_append_name hfront hname.toMoves, Path.endsInDots_append_name hfront hname⟩

variable [WorkingDirectory]

/-- The place that the directory of a store leads to. -/
def place (store : SnapshotStore) : Place :=
  FileSystem.placeAfter (FileSystem.startOf store.directory) (Path.names store.directory)

/-- The directory has a path, and none of the directories on the way to it is one in it that has a name
which the store uses. Only a way that goes up again can lead through such a directory. -/
structure Separate (store : SnapshotStore) : Prop where
  named : store.directory ≠ ""
  apart : ∀ front, front <+: Path.names store.directory → ∀ name, Own name →
    FileSystem.placeAfter (FileSystem.startOf store.directory) front ≠ store.place ++ [name]

/-- There is no file in the place of the directory, and nothing in it that has a name which the store
uses. -/
structure Vacant (store : SnapshotStore) (fs : FileSystem) : Prop where
  place : ∀ content, fs.entryAt store.place ≠ some (.file content)
  free : ∀ name, Own name → fs.entryAt (store.place ++ [name]) = none

/-- A directory is where the store has its files. -/
def Present (store : SnapshotStore) (fs : FileSystem) : Prop :=
  fs.HasDirectory (FileSystem.startOf store.directory) (Path.names store.directory)

/-- What the files say about the snapshots that a store holds. -/
structure Holds (store : SnapshotStore) (m : UInt64 → Option Bytes) (fs : FileSystem) : Prop where
  place : ∀ content, fs.entryAt store.place ≠ some (.file content)
  snapshots : ∀ id, fs.entryAt (store.place ++ [fileName id]) = (m id).map .file
  others : ∀ name id, idOf? name = some id → name ≠ fileName id →
    fs.entryAt (store.place ++ [name]) = none
  beside : ∀ id, fs.entryAt (store.place ++ [besideName id]) ≠ some .directory
  present : ∀ id, (m id).isSome = true → store.Present fs

theorem Vacant.holds (h : store.Vacant fs) : store.Holds (fun _ => none) fs where
  place := h.place
  snapshots id := h.free _ (own_fileName id)
  others name id hid _ := h.free name (Or.inl (by rw [hid]; rfl))
  beside id := by
    rw [h.free _ (own_besideName id)]
    exact nofun
  present := nofun

/-- A directory that no name leads up from is separate from all on the way to it. -/
theorem separate_of_not_mem (hnamed : store.directory ≠ "") (hup : ".." ∉ Path.names store.directory) :
    store.Separate := by
  have hplain (first : Place) (names : List String) (hnames : ".." ∉ names) :
      FileSystem.placeAfter first names = first ++ names := by
    induction names using List.reverseRecOn with
    | nil => exact (List.append_nil first).symm
    | append_singleton names name ih =>
      rw [List.mem_append, not_or, List.mem_singleton] at hnames
      rw [FileSystem.placeAfter_concat, ih hnames.1, FileSystem.placeIn, if_neg (Ne.symm hnames.2),
        List.append_assoc]
  refine ⟨hnamed, fun front hfront name _ h => ?_⟩
  rw [place, hplain _ front fun hmem => hup (hfront.subset hmem), hplain _ _ hup, List.append_assoc] at h
  have hlength := hfront.length_le
  rw [List.append_cancel_left h, List.length_append, List.length_singleton] at hlength
  omega

theorem locate_name (hnamed : store.directory ≠ "") {name : String} (hname : Path.Proper name.toList)
    {p : Place} :
    fs.locate (Path.join store.directory name) = .ok p ↔
      store.Present fs ∧ p = store.place ++ [name] := by
  exact FileSystem.locate_join hnamed hname

/-- What a store answers that holds certain snapshots. Nothing that is asked changes the files. -/
structure Answers (store : SnapshotStore) (m : UInt64 → Option Bytes) (fs : FileSystem) : Prop where
  load : ∀ id, (store.load id).run.run fs =
    (match m id with
      | some bytes => .ok bytes
      | none => .error (.fileNotFound (store.pathOf id)), fs)
  list : ∃ ids, store.list.run.run fs = (.ok ids, fs) ∧ ids.Pairwise (· < ·) ∧
    ∀ id, id ∈ ids ↔ (m id).isSome = true
  latest : (store.latest.run.run fs = (.ok none, fs) ∧ ∀ id, m id = none) ∨
    ∃ id bytes, store.latest.run.run fs = (.ok (some (id, bytes)), fs) ∧ m id = some bytes ∧
      ∀ other, (m other).isSome = true → other ≤ id

/-- The directory of a store is there as a directory, or there is nothing in its place. -/
theorem Holds.kind?_directory (h : store.Holds m fs) (hnamed : store.directory ≠ "") :
    fs.kind? store.directory = some .directory ∧ store.Present fs ∨
      fs.kind? store.directory = none ∧ ¬ store.Present fs := by
  by_cases hpresent : store.Present fs
  · exact Or.inl ⟨FileSystem.kind?_of_hasDirectory hnamed hpresent, hpresent⟩
  · refine Or.inr ⟨FileSystem.kind?_eq_none fun p hp => ?_, hpresent⟩
    obtain ⟨-, hwalk, -⟩ := FileSystem.locate_eq_ok_iff.mp hp
    obtain rfl := FileSystem.walk_eq_ok hwalk
    change fs.entryAt store.place = none
    cases hat : fs.entryAt store.place with
    | none => rfl
    | some entry =>
      cases entry with
      | file content => exact absurd hat (h.place content)
      | directory => exact absurd ⟨hwalk, hat⟩ hpresent

/-- A name is in the directory exactly once, if there is something under it. -/
theorem names_directory (hnamed : store.directory ≠ "") (hpresent : store.Present fs) :
    ∃ names, FileSystem.list fs store.directory = .ok names ∧ names.Nodup ∧
      ∀ name, name ∈ names ↔ fs.entryAt (store.place ++ [name]) ≠ none := by
  have hlocate := FileSystem.locate_of_walk hnamed hpresent.walk fun _ => hpresent
  refine ⟨fs.keys.filterMap (FileSystem.nameIn? store.place), ?_, ?_, fun name => ?_⟩
  · simp only [FileSystem.list, FileSystem.lookUp, hlocate, bind, Except.bind, hpresent.directory,
      pure, Except.pure, place]
  · -- Different places in a directory have different names.
    refine List.Nodup.filterMap (fun p q name hp hq => ?_) (SortedMap.nodup_keys fs)
    rw [FileSystem.nameIn?_eq_some_iff.mp hp, FileSystem.nameIn?_eq_some_iff.mp hq]
  · have hat : fs.entryAt (store.place ++ [name]) = fs.get? (store.place ++ [name]) :=
      if_neg (List.append_ne_nil_of_right_ne_nil _ (List.cons_ne_nil _ _))
    rw [List.mem_filterMap, hat, ne_eq, ← SortedMap.contains_eq_false_iff, Bool.not_eq_false,
      ← SortedMap.mem_keys_iff]
    constructor
    · rintro ⟨p, hp, hname⟩
      exact FileSystem.nameIn?_eq_some_iff.mp hname ▸ hp
    · exact fun hmem => ⟨_, hmem, FileSystem.nameIn?_eq_some_iff.mpr rfl⟩

theorem run_list_of_names {names : List String} (hkind : fs.kind? store.directory = some .directory)
    (hnames : FileSystem.list fs store.directory = .ok names) :
    store.list.run.run fs = (.ok ((names.filterMap idOf?).mergeSort fun a b => a ≤ b), fs) := by
  have hlistRun : (FileTask.list store.directory).run.run fs = (.ok names, fs) := by
    change (((FileSystem.list fs store.directory).mapError fun e => SourceError.io e.message), fs) = _
    rw [hnames]
    rfl
  rw [list, FileTask.run_bind, FileTask.run_kind, hkind]
  simp only [Option.isNone_some, Bool.false_eq_true, if_false, FileTask.run_bind, hlistRun]
  rfl

theorem run_list_of_present (hnamed : store.directory ≠ "") (hpresent : store.Present fs) :
    ∃ names : List String,
      store.list.run.run fs = (.ok ((names.filterMap idOf?).mergeSort fun a b => a ≤ b), fs) ∧
        names.Nodup ∧ ∀ name, name ∈ names ↔ fs.entryAt (store.place ++ [name]) ≠ none := by
  obtain ⟨names, hlist, hnodup, hmem⟩ := names_directory hnamed hpresent
  have hkind := FileSystem.kind?_of_hasDirectory hnamed hpresent
  exact ⟨names, run_list_of_names hkind hlist, hnodup, hmem⟩

/-- Where nothing has the name of its file, a snapshot is not found. -/
theorem run_load_of_none (hnamed : store.directory ≠ "")
    (hnone : fs.entryAt (store.place ++ [fileName id]) = none) :
    (store.load id).run.run fs = (.error (.fileNotFound (store.pathOf id)), fs) := by
  have hkind : FileSystem.kind? fs (store.pathOf id) = none := by
    apply FileSystem.kind?_eq_none
    intro p hp
    obtain ⟨-, rfl⟩ := (locate_name hnamed (proper_fileName id)).mp hp
    exact hnone
  rw [load, FileTask.run_readExisting_eq, hkind]
  rfl

theorem run_load_of_file (hnamed : store.directory ≠ "") (hpresent : store.Present fs)
    (hfile : fs.entryAt (store.place ++ [fileName id]) = some (.file bytes)) :
    (store.load id).run.run fs = (.ok bytes, fs) := by
  refine FileTask.run_readExisting
    (FileSystem.read_eq_ok_iff.mpr ⟨store.place ++ [fileName id], ?_, hfile, ?_⟩)
  · exact (locate_name hnamed (proper_fileName id)).mpr ⟨hpresent, rfl⟩
  · exact (ends_name hnamed (proper_fileName id)).1

theorem Holds.run_load (h : store.Holds m fs) (hnamed : store.directory ≠ "") (id : UInt64) :
    (store.load id).run.run fs =
      (match m id with
        | some bytes => .ok bytes
        | none => .error (.fileNotFound (store.pathOf id)), fs) := by
  have hentry := h.snapshots id
  cases hid : m id with
  | none =>
    rw [hid] at hentry
    exact run_load_of_none hnamed hentry
  | some bytes =>
    rw [hid] at hentry
    exact run_load_of_file hnamed (h.present id (by rw [hid]; rfl)) hentry

/-- A name in the directory counts for a checkpoint if and only if it is the one of its snapshot. -/
theorem Holds.exists_idOf?_iff (h : store.Holds m fs) {names : List String}
    (hmem : ∀ name, name ∈ names ↔ fs.entryAt (store.place ++ [name]) ≠ none) :
    id ∈ names.filterMap idOf? ↔ (m id).isSome = true := by
  rw [List.mem_filterMap]
  constructor
  · rintro ⟨name, hname, hid⟩
    rw [hmem] at hname
    obtain rfl : name = fileName id := by
      by_contra hne
      exact hname (h.others name id hid hne)
    rw [h.snapshots, ne_eq, Option.map_eq_none_iff] at hname
    exact Option.isSome_iff_ne_none.mpr hname
  · intro hid
    refine ⟨fileName id, (hmem _).mpr ?_, idOf?_fileName id⟩
    rw [h.snapshots, ne_eq, Option.map_eq_none_iff]
    exact Option.isSome_iff_ne_none.mp hid

theorem Holds.nodup_ids (h : store.Holds m fs) {names : List String} (hnames : names.Nodup)
    (hmem : ∀ name, name ∈ names ↔ fs.entryAt (store.place ++ [name]) ≠ none) :
    (names.filterMap idOf?).Nodup := by
  -- Of the names that count for a checkpoint only one is in the directory.
  have hname (name : String) (hin : name ∈ names) (id : UInt64) (hid : idOf? name = some id) :
      name = fileName id := by
    by_contra hne
    exact (hmem name).mp hin (h.others name id hid hne)
  apply (nodup_ids_iff hnames).mpr
  intro a ha b hb id hid hid'
  rw [hname a ha id hid, hname b hb id hid']

theorem Holds.run_list (h : store.Holds m fs) (hnamed : store.directory ≠ "") :
    ∃ ids, store.list.run.run fs = (.ok ids, fs) ∧ ids.Pairwise (· < ·) ∧
      ∀ id, id ∈ ids ↔ (m id).isSome = true := by
  rcases h.kind?_directory hnamed with ⟨-, hpresent⟩ | ⟨hkind, habsent⟩
  · obtain ⟨names, hrun, hnodup, hmem⟩ := run_list_of_present hnamed hpresent
    refine ⟨(names.filterMap idOf?).mergeSort fun a b => a ≤ b, hrun, ?_, fun id => ?_⟩
    · exact pairwise_lt_mergeSort (h.nodup_ids hnodup hmem)
    · rw [List.mem_mergeSort]
      exact h.exists_idOf?_iff hmem
  · refine ⟨[], ?_, List.Pairwise.nil, fun id => ?_⟩
    · rw [list, FileTask.run_bind, FileTask.run_kind, hkind]
      rfl
    · refine iff_of_false List.not_mem_nil fun hid => habsent (h.present id hid)

theorem Holds.answers (h : store.Holds m fs) (hnamed : store.directory ≠ "") : store.Answers m fs where
  load := h.run_load hnamed
  list := h.run_list hnamed
  latest := by
    obtain ⟨ids, hrun, hascending, hmem⟩ := h.run_list hnamed
    rw [latest, FileTask.run_bind, hrun]
    cases hlast : ids.getLast? with
    | none =>
      refine Or.inl ⟨by simp only [hlast]; rfl, fun id => ?_⟩
      obtain rfl := List.getLast?_eq_none_iff.mp hlast
      have hnone := mt (hmem id).mpr List.not_mem_nil
      rwa [Bool.not_eq_true, Option.isSome_eq_false_iff, Option.isNone_iff_eq_none] at hnone
    | some id =>
      obtain ⟨front, rfl⟩ := List.getLast?_eq_some_iff.mp hlast
      have hmax : id ∈ front ++ [id] := List.mem_append_right _ (List.mem_singleton_self id)
      obtain ⟨bytes, hid⟩ := Option.isSome_iff_exists.mp ((hmem id).mp hmax)
      refine Or.inr ⟨id, bytes, ?_, hid, fun other hother => ?_⟩
      · simp only [hlast, FileTask.run_bind, h.run_load hnamed, hid]
        rfl
      · rcases List.mem_append.mp ((hmem other).mpr hother) with hfront | hsame
        · have hbelow := (List.pairwise_append.mp hascending).2.2 other hfront
          exact UInt64.le_of_lt (hbelow id (List.mem_singleton_self id))
        · exact UInt64.le_of_eq (List.mem_singleton.mp hsame)

/-- What the files say stays the same where nothing changes under the names that count. -/
theorem Holds.of_frame (h : store.Holds m fs)
    (hkeep : ∀ p, fs.entryAt p = some .directory → after.entryAt p = some .directory)
    (hplace : ∀ content, after.entryAt store.place ≠ some (.file content))
    (hcounts : ∀ name, (idOf? name).isSome = true →
      after.entryAt (store.place ++ [name]) = fs.entryAt (store.place ++ [name]))
    (hbeside : ∀ id, after.entryAt (store.place ++ [besideName id]) ≠ some .directory) :
    store.Holds m after where
  place := hplace
  snapshots id := (hcounts _ (by rw [idOf?_fileName]; rfl)).trans (h.snapshots id)
  others name id hid hne := (hcounts name (by rw [hid]; rfl)).trans (h.others name id hid hne)
  beside := hbeside
  present id hid := FileSystem.HasDirectory.of_keep (h.present id hid) hkeep

theorem Holds.of_insert (h : store.Holds m fs) (hstore : store.Separate) {front : List String}
    (hfront : front <+: Path.names store.directory)
    (hfree : fs.entryAt (FileSystem.placeAfter (FileSystem.startOf store.directory) front) = none) :
    store.Holds m (fs.insert (FileSystem.placeAfter (FileSystem.startOf store.directory) front)
      .directory) := by
  have hentry := FileSystem.entryAt_insert_directory hfree
  have hother (name : String) (hname : Own name) :
      FileSystem.entryAt (fs.insert (FileSystem.placeAfter (FileSystem.startOf store.directory) front)
        .directory) (store.place ++ [name]) = fs.entryAt (store.place ++ [name]) := by
    rw [hentry, if_neg (hstore.apart front hfront name hname).symm]
  refine h.of_frame (FileSystem.directory_of_insert hfree) (fun content => ?_)
    (fun name hname => hother name (Or.inl hname)) (fun id => ?_)
  · rw [hentry]
    split
    · exact nofun
    · exact h.place content
  · rw [hother _ (own_besideName id)]
    exact h.beside id

theorem place_ne_name (store : SnapshotStore) (name : String) : store.place ≠ store.place ++ [name] := by
  simp

/-- A content is written under the name under which snapshots are first written. -/
theorem entryAt_of_write (hnamed : store.directory ≠ "")
    (hwrite : fs.write (Path.withExtension (store.pathOf id) "tmp") bytes = .ok after) :
    fs.entryAt (store.place ++ [besideName id]) ≠ some .directory ∧
      ∀ p, after.entryAt p =
        if p = store.place ++ [besideName id] then some (.file bytes) else fs.entryAt p := by
  rw [withExtension_pathOf hnamed] at hwrite
  obtain ⟨p, hp, hfile, hentry⟩ := FileSystem.entryAt_of_write hwrite
  obtain ⟨-, rfl⟩ := (locate_name hnamed (proper_besideName id)).mp hp
  exact ⟨hfile, hentry⟩

/-- What is written there is moved to the name of the snapshot of its checkpoint. -/
theorem entryAt_of_rename (hnamed : store.directory ≠ "")
    (hread : fs.read (Path.withExtension (store.pathOf id) "tmp") = .ok bytes)
    (hrename : fs.rename (Path.withExtension (store.pathOf id) "tmp") (store.pathOf id) = .ok after) :
    store.Present fs ∧ (∀ p, fs.entryAt p = some .directory → after.entryAt p = some .directory) ∧
      ∀ p, after.entryAt p =
        if p = store.place ++ [fileName id] then some (.file bytes)
        else if p = store.place ++ [besideName id] then none else fs.entryAt p := by
  rw [withExtension_pathOf hnamed] at hread hrename
  obtain ⟨source, target, hsource, htarget, hfile, hentry⟩ := FileSystem.entryAt_of_rename hread hrename
  obtain ⟨-, rfl⟩ := (locate_name hnamed (proper_besideName id)).mp hsource
  obtain ⟨hpresent, rfl⟩ := (locate_name hnamed (proper_fileName id)).mp htarget
  refine ⟨hpresent, fun p hp => ?_, hentry⟩
  obtain ⟨source, hsource', hbeside, -⟩ := FileSystem.read_eq_ok_iff.mp hread
  obtain rfl := Except.ok.inj (hsource'.symm.trans hsource)
  have hbeside' : fs.entryAt (store.place ++ [besideName id]) ≠ some .directory := by
    rw [hbeside]
    exact nofun
  rw [hentry, if_neg (ne_of_directory hfile hp), if_neg (ne_of_directory hbeside' hp)]
  exact hp

theorem Holds.of_write (h : store.Holds m fs) (hnamed : store.directory ≠ "")
    (hwrite : fs.write (Path.withExtension (store.pathOf id) "tmp") bytes = .ok after) :
    store.Holds m after := by
  obtain ⟨hfile, hentry⟩ := entryAt_of_write hnamed hwrite
  refine h.of_frame (fun p hp => ?_) (fun content => ?_) (fun name hname => ?_) (fun other => ?_)
  · rw [hentry, if_neg (ne_of_directory hfile hp)]
    exact hp
  · rw [hentry, if_neg (store.place_ne_name _)]
    exact h.place content
  · rw [hentry, if_neg (name_ne (besideName_ne hname id))]
  · rw [hentry]
    split
    · exact nofun
    · exact h.beside other

theorem Holds.of_rename (h : store.Holds m fs) (hnamed : store.directory ≠ "")
    (hread : fs.read (Path.withExtension (store.pathOf id) "tmp") = .ok bytes)
    (hrename : fs.rename (Path.withExtension (store.pathOf id) "tmp") (store.pathOf id) = .ok after) :
    store.Holds (Function.update m id (some bytes)) after := by
  obtain ⟨hpresent, hkeep, hentry⟩ := entryAt_of_rename hnamed hread hrename
  -- Of the names that count, only the one of the checkpoint gets another file.
  have hother (name : String) (hid : (idOf? name).isSome = true) (hne : name ≠ fileName id) :
      after.entryAt (store.place ++ [name]) = fs.entryAt (store.place ++ [name]) := by
    rw [hentry, if_neg (name_ne hne), if_neg (name_ne (besideName_ne hid id))]
  constructor
  case place =>
    intro content
    rw [hentry, if_neg (store.place_ne_name _), if_neg (store.place_ne_name _)]
    exact h.place content
  case snapshots =>
    intro other
    by_cases hid : other = id
    · subst hid
      rw [hentry, if_pos rfl, Function.update_self]
      rfl
    · rw [hother _ (by rw [idOf?_fileName]; rfl) (fileName_injective.ne hid), Function.update_of_ne hid]
      exact h.snapshots other
  case others =>
    intro name other hid hne
    have hne' : name ≠ fileName id := by
      rintro rfl
      rw [idOf?_fileName] at hid
      exact hne (congrArg fileName (Option.some.inj hid))
    rw [hother name (by rw [hid]; rfl) hne']
    exact h.others name other hid hne
  case beside =>
    intro other
    rw [hentry, if_neg (name_ne (besideName_ne (by rw [idOf?_fileName]; rfl) other).symm)]
    split
    · exact nofun
    · exact h.beside other
  case present => exact fun _ _ => FileSystem.HasDirectory.of_keep hpresent hkeep

/-- A save makes the directory first and then replaces the file of the snapshot. -/
theorem run_save (store : SnapshotStore) (id : UInt64) (bytes : Bytes) (fs : FileSystem) :
    (store.save id bytes).run.run fs =
      match (FileTask.makeDirectories store.directory).run.run fs with
      | (.error e, mid) => (.error e, mid)
      | (.ok _, mid) =>
        (((FileTask.replace (store.pathOf id) bytes).run.run mid).1.map fun _ => store.pathOf id,
          ((FileTask.replace (store.pathOf id) bytes).run.run mid).2) := by
  rw [save, FileTask.run_bind]
  rcases (FileTask.makeDirectories store.directory).run.run fs with ⟨_ | _, mid⟩
  · rfl
  · dsimp only
    rw [FileTask.run_bind]
    rcases (FileTask.replace (store.pathOf id) bytes).run.run mid with ⟨_ | _, after⟩
    · rfl
    · rfl

/-- Creating the directory of a store changes nothing of what the files say. -/
theorem Holds.keeps_makeDirectories (m : UInt64 → Option Bytes) (hstore : store.Separate) :
    (FileTask.makeDirectories store.directory).run.Keeps (store.Holds m) :=
  FileTask.keeps_makeNested (fun _ _ hfs hfront hfree => hfs.of_insert hstore hfront hfree) rfl
    (List.prefix_refl _)

/-- A save that succeeds changes the snapshot of its checkpoint, and one that fails changes none. -/
theorem Holds.of_save (h : store.Holds m fs) (hstore : store.Separate) {result : Except SourceError String}
    (hrun : (store.save id bytes).run.run fs = (result, after)) :
    (∃ e, result = .error e ∧ store.Holds m after) ∨
      result = .ok (store.pathOf id) ∧ store.Holds (Function.update m id (some bytes)) after := by
  have hmid := (keeps_makeDirectories m hstore).run h
  rw [run_save] at hrun
  split at hrun
  next e mid hmade =>
    obtain ⟨rfl, rfl⟩ := Prod.mk.inj hrun
    rw [hmade] at hmid
    exact Or.inl ⟨e, rfl, hmid⟩
  next mid hmade =>
    rw [hmade] at hmid
    have hcases := FileTask.run_replace mid (store.pathOf id) bytes
    generalize (FileTask.replace (store.pathOf id) bytes).run.run mid = r at hrun hcases
    obtain ⟨rfl, rfl⟩ := Prod.mk.inj hrun
    cases hcases with
    | moved hwrite hrename =>
      -- The content that is moved is the one that was just written.
      have hwritten := hmid.of_write hstore.named hwrite
      exact Or.inr ⟨rfl, hwritten.of_rename hstore.named (FileSystem.read_of_write hwrite) hrename⟩
    | unwritten => exact Or.inl ⟨_, rfl, hmid⟩
    | unmoved hwrite => exact Or.inl ⟨_, rfl, hmid.of_write hstore.named hwrite⟩

/-- A save ends early while directories are made, or else with at most a part of the snapshot written. -/
theorem breaksOff_save_iff :
    (store.save id bytes).run.BreaksOff fs after ↔
      (FileTask.makeDirectories store.directory).run.BreaksOff fs after ∨
        ∃ mid, (FileTask.makeDirectories store.directory).run.run fs = (.ok (), mid) ∧
          (after = mid ∨
            ∃ n, mid.write (Path.withExtension (store.pathOf id) "tmp") (bytes.take n) = .ok after) := by
  rw [save, FileTask.breaksOff_bind]
  refine or_congr_right ⟨?_, ?_⟩
  · rintro ⟨_, mid, hmade, hoff⟩
    rw [FileTask.breaksOff_bind, FileTask.breaksOff_replace] at hoff
    refine ⟨mid, hmade, hoff.resolve_right ?_⟩
    rintro ⟨_, _, -, hdone⟩
    exact hdone
  · rintro ⟨mid, hmade, hoff⟩
    refine ⟨(), mid, hmade, ?_⟩
    rw [FileTask.breaksOff_bind, FileTask.breaksOff_replace]
    exact Or.inl hoff

theorem Holds.of_breaksOff (h : store.Holds m fs) (hstore : store.Separate)
    (hoff : (store.save id bytes).run.BreaksOff fs after) : store.Holds m after := by
  have hmade := keeps_makeDirectories m hstore
  rw [breaksOff_save_iff] at hoff
  rcases hoff with hoff | ⟨mid, hrun, hoff⟩
  · exact hmade.breaksOff h hoff
  · have hmid := hmade.run h
    rw [hrun] at hmid
    rcases hoff with rfl | ⟨n, hpart⟩
    · exact hmid
    · exact hmid.of_write hstore.named hpart

/-- The directories on the way to a store can be created as before, whatever was saved. -/
theorem keeps_accessible (hstore : store.Separate) (id : UInt64) (bytes : Bytes) :
    (store.save id bytes).run.Keeps fun fs => fs.Accessible store.directory := by
  -- The two names that a save uses are not on the way to the directory.
  have hown {fs after : FileSystem} (hfs : fs.Accessible store.directory)
      (hkeep : ∀ p, fs.entryAt p = some .directory → after.entryAt p = some .directory)
      (helse : ∀ p, p ≠ store.place ++ [besideName id] → p ≠ store.place ++ [fileName id] →
        after.entryAt p = fs.entryAt p) : after.Accessible store.directory := by
    refine hfs.of_keep hkeep fun front hfront content hat => ⟨content, ?_⟩
    rwa [← helse _ (hstore.apart front hfront _ (own_besideName id))
      (hstore.apart front hfront _ (own_fileName id))]
  refine FileTask.keeps_bind ?_ fun _ =>
    FileTask.keeps_bind (FileTask.keeps_bind ?_ fun _ => ?_) fun _ => trivial
  · exact FileTask.keeps_makeNested (fun _ _ hfs _ hfree => hfs.of_insert hfree) rfl (List.prefix_refl _)
  · refine ⟨fun n fs after hfs hwrite => ?_, fun r => trivial⟩
    obtain ⟨hfile, hentry⟩ := entryAt_of_write hstore.named hwrite
    refine hown hfs (fun p hp => ?_) fun p hp _ => ?_
    · rw [hentry, if_neg (ne_of_directory hfile hp)]
      exact hp
    · rw [hentry, if_neg hp]
  · refine ⟨fun fs after hfs hrename => ?_, fun r => trivial⟩
    obtain ⟨content, _, _, hread, -⟩ := FileSystem.rename_eq_ok hrename
    obtain ⟨-, hkeep, hentry⟩ := entryAt_of_rename hstore.named hread hrename
    refine hown hfs hkeep fun p hbeside hname => ?_
    rw [hentry, if_neg hname, if_neg hbeside]

theorem accessible_of_save (hstore : store.Separate) (h : fs.Accessible store.directory)
    {result : Except SourceError String} (hrun : (store.save id bytes).run.run fs = (result, after)) :
    after.Accessible store.directory := by
  have hkept := (keeps_accessible hstore id bytes).run h
  rwa [hrun] at hkept

/-- Where the directory of a store can be created, saving succeeds. -/
theorem Holds.exists_save (h : store.Holds m fs) (hstore : store.Separate)
    (haccessible : fs.Accessible store.directory) (id : UInt64) (bytes : Bytes) :
    ∃ after, (store.save id bytes).run.run fs = (.ok (store.pathOf id), after) := by
  obtain ⟨mid, hmade, hdirectory⟩ := FileTask.exists_makeDirectories haccessible
  have hmid := (keeps_makeDirectories m hstore).run h
  rw [hmade] at hmid
  have hpresent : store.Present mid := hdirectory
  have hlocate (name : String) (hname : Path.Proper name.toList) :
      mid.locate (Path.join store.directory name) = .ok (store.place ++ [name]) :=
    (locate_name hstore.named hname).mpr ⟨hpresent, rfl⟩
  obtain ⟨written, hwrite⟩ := FileSystem.exists_write bytes (hlocate _ (proper_besideName id))
    (hmid.beside id) (ends_name hstore.named (proper_besideName id)).1
  rw [← withExtension_pathOf hstore.named] at hwrite
  obtain ⟨hfile, hname⟩ := ends_name hstore.named (proper_fileName id)
  obtain ⟨after, hrename⟩ := FileSystem.exists_rename_of_write hwrite {
    name := hname
    file := hfile
    free := by
      intro p hp
      obtain rfl := Except.ok.inj ((hlocate _ (proper_fileName id)).symm.trans hp)
      rw [hmid.snapshots]
      cases m id with
      | none => exact nofun
      | some content => exact nofun }
  have hreplace : (FileTask.replace (store.pathOf id) bytes).run.run mid = (.ok (), after) := by
    rw [FileTask.replace, FileTask.run_bind, FileTask.run_write_eq_ok_iff.mpr hwrite]
    exact FileTask.run_rename_eq_ok_iff.mpr hrename
  refine ⟨after, ?_⟩
  rw [run_save, hmade]
  dsimp only
  rw [hreplace]
  rfl

/-- What a store holds after any requests to it, one after the other: nothing at first, and then what was
last saved for each checkpoint. A save may fail, and it may end early for good. -/
inductive Reaches (store : SnapshotStore) (fs₀ : FileSystem) :
    (UInt64 → Option Bytes) → FileSystem → Prop where
  | start : Reaches store fs₀ (fun _ => none) fs₀
  | saved {m : UInt64 → Option Bytes} {fs after : FileSystem} {id : UInt64} {bytes : Bytes} {path : String}
      (h : Reaches store fs₀ m fs) (hrun : (store.save id bytes).run.run fs = (.ok path, after)) :
    Reaches store fs₀ (Function.update m id (some bytes)) after
  | refused {m : UInt64 → Option Bytes} {fs after : FileSystem} {id : UInt64} {bytes : Bytes}
      {e : SourceError} (h : Reaches store fs₀ m fs)
      (hrun : (store.save id bytes).run.run fs = (.error e, after)) : Reaches store fs₀ m after
  | brokenOff {m : UInt64 → Option Bytes} {fs after : FileSystem} {id : UInt64} {bytes : Bytes}
      (h : Reaches store fs₀ m fs) (hoff : (store.save id bytes).run.BreaksOff fs after) :
    Reaches store fs₀ m after
  | loaded {m : UInt64 → Option Bytes} {fs : FileSystem} (h : Reaches store fs₀ m fs) (id : UInt64) :
    Reaches store fs₀ m ((store.load id).run.run fs).2
  | listed {m : UInt64 → Option Bytes} {fs : FileSystem} (h : Reaches store fs₀ m fs) :
    Reaches store fs₀ m (store.list.run.run fs).2
  | lookedUp {m : UInt64 → Option Bytes} {fs : FileSystem} (h : Reaches store fs₀ m fs) :
    Reaches store fs₀ m (store.latest.run.run fs).2

theorem Answers.unchanged (h : store.Answers m fs) (id : UInt64) :
    ((store.load id).run.run fs).2 = fs ∧ (store.list.run.run fs).2 = fs ∧
      (store.latest.run.run fs).2 = fs := by
  obtain ⟨_, hlist, -⟩ := h.list
  refine ⟨by rw [h.load], by rw [hlist], ?_⟩
  rcases h.latest with ⟨hlatest, -⟩ | ⟨_, _, hlatest, -⟩
  · rw [hlatest]
  · rw [hlatest]

/-- Whatever was asked of a store, the files say what it holds, and its directory can be created if it
could be at first. -/
theorem Reaches.holds (h : store.Reaches fs₀ m fs) (hstore : store.Separate) (hfs₀ : store.Vacant fs₀) :
    store.Holds m fs ∧ (fs₀.Accessible store.directory → fs.Accessible store.directory) := by
  induction h with
  | start => exact ⟨hfs₀.holds, id⟩
  | saved h hrun ih =>
    rcases ih.1.of_save hstore hrun with ⟨_, he, -⟩ | ⟨-, hafter⟩
    · cases he
    · exact ⟨hafter, fun h₀ => accessible_of_save hstore (ih.2 h₀) hrun⟩
  | refused h hrun ih =>
    rcases ih.1.of_save hstore hrun with ⟨_, -, hafter⟩ | ⟨he, -⟩
    · exact ⟨hafter, fun h₀ => accessible_of_save hstore (ih.2 h₀) hrun⟩
    · cases he
  | brokenOff h hoff ih =>
    have haccessible := keeps_accessible hstore
    exact ⟨ih.1.of_breaksOff hstore hoff, fun h₀ => (haccessible _ _).breaksOff (ih.2 h₀) hoff⟩
  | loaded h id ih =>
    rwa [((ih.1.answers hstore.named).unchanged id).1]
  | listed h ih =>
    rwa [((ih.1.answers hstore.named).unchanged 0).2.1]
  | lookedUp h ih =>
    rwa [((ih.1.answers hstore.named).unchanged 0).2.2]

/-- A store is a map from checkpoints to snapshots. Whatever was asked of it, and wherever a save ended
early: a snapshot that is loaded is the one that was last saved for its checkpoint, the list has exactly the
checkpoints for which one was saved, in strictly ascending order, and the latest is the one with the highest
number. Where the directory can be created, every save succeeds. -/
theorem answers_of_reaches (hstore : store.Separate) (hfs₀ : store.Vacant fs₀)
    (h : store.Reaches fs₀ m fs) :
    store.Answers m fs ∧ (fs₀.Accessible store.directory → ∀ id bytes, ∃ after,
      (store.save id bytes).run.run fs = (.ok (store.pathOf id), after)) := by
  obtain ⟨hholds, haccessible⟩ := h.holds hstore hfs₀
  exact ⟨hholds.answers hstore.named, fun h₀ => hholds.exists_save hstore (haccessible h₀)⟩

end CheckpointedLog.SnapshotStore

namespace CheckpointedLog.SnapshotStore

open scoped FileSystem.AtRoot

/-- A snapshot is saved, and while one of a later checkpoint is written, everything ends. The first one
stays the latest, and the store can be used on. -/
theorem answers_after_end :
    let store : SnapshotStore := ⟨"a/b"⟩
    let saved := ((store.save 9 [1, 2]).run.run .empty).2
    ∃ ended, FileSystem.write saved "a/b/snapshot-10.tmp" [3] = .ok ended ∧
      store.Answers (Function.update (fun _ => none) 9 (some [1, 2])) ended ∧
      ∀ id bytes, ∃ after, (store.save id bytes).run.run ended = (.ok (store.pathOf id), after) := by
  intro store saved
  have hstore : store.Separate := separate_of_not_mem (by decide) (by decide +kernel)
  have hempty (place : Place) (hne : place ≠ []) : FileSystem.entryAt .empty place = none := if_neg hne
  have hvacant : store.Vacant .empty := by
    constructor
    case place =>
      intro content h
      cases h.symm.trans (hempty store.place (by decide +kernel))
    case free => exact fun name _ => hempty _ (List.append_ne_nil_of_right_ne_nil _ (List.cons_ne_nil _ _))
  have haccessible : FileSystem.Accessible .empty store.directory := by
    constructor
    case start => decide +kernel
    case clear =>
      intro front _ content h
      by_cases hne : FileSystem.placeAfter (FileSystem.startOf store.directory) front = []
      · rw [hne] at h
        cases h
      · cases h.symm.trans (hempty _ hne)
    case dot => exact fun h => absurd h (by decide +kernel)
  have hrun : (store.save 9 [1, 2]).run.run .empty = (.ok "a/b/snapshot-9.bin", saved) :=
    Prod.ext (by decide +kernel) rfl
  have hmade : (FileTask.makeDirectories store.directory).run.run saved = (.ok (), saved) :=
    Prod.ext (by decide +kernel) (by decide +kernel)
  obtain ⟨ended, hwrite⟩ : ∃ ended, FileSystem.write saved "a/b/snapshot-10.tmp" [3] = .ok ended := by
    have hok : (FileSystem.write saved "a/b/snapshot-10.tmp" [3]).isOk = true := by decide +kernel
    cases hwrite : FileSystem.write saved "a/b/snapshot-10.tmp" [3] with
    | error e =>
      rw [hwrite] at hok
      cases hok
    | ok ended => exact ⟨ended, rfl⟩
  have hbeside : Path.withExtension (store.pathOf 10) "tmp" = "a/b/snapshot-10.tmp" := by decide +kernel
  clear_value saved store
  -- The later snapshot has two bytes, of which one arrives.
  have hoff : (store.save 10 [3, 4]).run.BreaksOff saved ended := by
    rw [breaksOff_save_iff, hbeside]
    exact Or.inr ⟨saved, hmade, Or.inr ⟨1, hwrite⟩⟩
  obtain ⟨hanswers, hsaves⟩ :=
    answers_of_reaches hstore hvacant (.brokenOff (.saved .start hrun) hoff)
  exact ⟨ended, hwrite, hanswers, hsaves haccessible⟩

/-- Without a path the snapshots come to stand in the working directory, where each of them is found; but
there is nothing to be listed at an empty path. On a way that leads up again, a directory made on it is
listed as a snapshot that nobody saved. -/
theorem unnamed_lists_nothing :
    (let store : SnapshotStore := ⟨""⟩
      let saved := (store.save 1 [0]).run.run .empty
      saved.1 = .ok "snapshot-1.bin" ∧ ((store.load 1).run.run saved.2).1 = .ok [0] ∧
        (store.list.run.run saved.2).1 = .ok [] ∧ (store.latest.run.run saved.2).1 = .ok none) ∧
    let store : SnapshotStore := ⟨"snapshot-7.bin/.."⟩
    let refused := (store.save 7 [0]).run.run .empty
    refused.1 = .error (.io FileError.isDirectory.message) ∧
      (store.list.run.run refused.2).1 = .ok [7] := by
  constructor
  · intro store saved
    refine ⟨?_, ?_, ?_, ?_⟩
    · decide +kernel
    · decide +kernel
    · decide +kernel
    · decide +kernel
  · intro store refused
    constructor
    · decide +kernel
    · decide +kernel

end CheckpointedLog.SnapshotStore
