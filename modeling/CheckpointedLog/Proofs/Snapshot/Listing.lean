import CheckpointedLog.Proofs.Snapshot.Store

/-!
What a store says about a directory in which any files may stand. Its list takes every name for a snapshot
that spells a number, also with a sign or with zeros in front, but a snapshot is loaded from the one name
that the store itself gives it. The two agree if and only if no other spelling is in the directory.
-/
namespace CheckpointedLog.SnapshotStore

/-- The digits of a number, with zeros and perhaps a sign in front of them. -/
def spelledDigits (signed : Bool) (zeros : ℕ) (id : UInt64) : List Char :=
  (if signed then ['+'] else []) ++ (List.replicate zeros '0' ++ (toString id.toNat).toList)

/-- A name that spells the number of a checkpoint. -/
def spelling (signed : Bool) (zeros : ℕ) (id : UInt64) : String :=
  "snapshot-" ++ String.ofList (spelledDigits signed zeros id) ++ ".bin"

theorem spelling_eq (signed : Bool) (zeros : ℕ) (id : UInt64) : spelling signed zeros id =
    String.ofList ("snapshot-".toList ++ (spelledDigits signed zeros id ++ ".bin".toList)) := by
  apply String.toList_inj.mp
  simp only [spelling, String.toList_append, String.toList_ofList, List.append_assoc]

theorem spelling_plain (id : UInt64) : spelling false 0 id = fileName id := by
  have hdigits : spelledDigits false 0 id = (toString id.toNat).toList := by
    simp only [spelledDigits, Bool.false_eq_true, if_false, List.replicate_zero, List.nil_append]
  rw [spelling, hdigits, String.ofList_toList, fileName]

/-- The store uses the shortest spelling, and no other one is as short. -/
theorem eq_plain_of_spelling {signed : Bool} {zeros : ℕ} {id : UInt64}
    (h : spelling signed zeros id = fileName id) : signed = false ∧ zeros = 0 := by
  rw [← spelling_plain, spelling_eq, spelling_eq] at h
  have hlists := List.append_cancel_left (String.ofList_injective h)
  have hdigits : spelledDigits signed zeros id = spelledDigits false 0 id :=
    List.append_cancel_right hlists
  have hlength := congrArg List.length hdigits
  simp only [spelledDigits, List.length_append, List.length_replicate] at hlength
  cases signed with
  | true =>
    simp at hlength
    omega
  | false =>
    refine ⟨rfl, ?_⟩
    simp at hlength
    omega

/-- The names that count for a checkpoint are the spellings of its number. -/
theorem idOf?_eq_some_iff {name : String} {id : UInt64} :
    idOf? name = some id ↔ ∃ signed zeros, name = spelling signed zeros id := by
  constructor
  · intro h
    unfold idOf? at h
    dsimp only at h
    obtain ⟨hopening, h⟩ := Option.ite_none_right_eq_some.mp h
    obtain ⟨hending, h⟩ := Option.ite_none_right_eq_some.mp h
    -- The name is taken apart from both ends, and the digits are what is left.
    obtain ⟨rest, hrest⟩ := List.isPrefixOf_iff_prefix.mp hopening
    have hdrop : name.toList.drop "snapshot-".length = rest := by
      rw [← hrest]
      exact List.drop_left
    rw [hdrop] at h hending
    obtain ⟨digits, rfl⟩ := List.isSuffixOf_iff_suffix.mp hending
    have htake : (digits ++ ".bin".toList).take ((digits ++ ".bin".toList).length - ".bin".length) =
        digits := by
      rw [List.length_append, show ".bin".length = ".bin".toList.length from rfl, Nat.add_sub_cancel,
        List.take_left]
    rw [htake] at h
    obtain ⟨signed, zeros, hspelled⟩ := Decimal.uint64?_eq_some_iff.mp h
    have hdigits : digits = spelledDigits signed zeros id := hspelled
    refine ⟨signed, zeros, ?_⟩
    apply String.toList_inj.mp
    rw [spelling_eq, String.toList_ofList, ← hdigits]
    exact hrest.symm
  · rintro ⟨signed, zeros, rfl⟩
    rw [spelling_eq, idOf?_ofList]
    exact Decimal.uint64?_eq_some_iff.mpr ⟨signed, zeros, rfl⟩

variable [WorkingDirectory] {store : SnapshotStore} {fs : FileSystem} {id : UInt64}

/-- What is in the file that has the name of a snapshot. -/
def contents (store : SnapshotStore) (fs : FileSystem) (id : UInt64) : Option Bytes :=
  match fs.entryAt (store.place ++ [fileName id]) with
  | some (.file bytes) => some bytes
  | _ => none

/-- Something is in the directory under this spelling of the number. -/
def HasSpelling (store : SnapshotStore) (fs : FileSystem) (signed : Bool) (zeros : ℕ) (id : UInt64) :
    Prop :=
  fs.entryAt (store.place ++ [spelling signed zeros id]) ≠ none

/-- What a store answers: snapshots are loaded from the files with their names, the list has each number
that some name spells, and the latest snapshot is that of the last number in the list. -/
structure Reports (store : SnapshotStore) (fs : FileSystem) (ids : List UInt64) : Prop where
  load : ∀ id, (store.load id).run.run fs =
    (match store.contents fs id with
      | some bytes => .ok bytes
      | none => .error (.fileNotFound (store.pathOf id)), fs)
  list : store.list.run.run fs = (.ok ids, fs)
  ascending : ids.Pairwise (· ≤ ·)
  mem : ∀ id, id ∈ ids ↔ ∃ signed zeros, store.HasSpelling fs signed zeros id
  /-- A number that is spelled in two ways is listed twice. -/
  nodup : ids.Nodup ↔ ∀ id signed zeros signed' zeros', store.HasSpelling fs signed zeros id →
    store.HasSpelling fs signed' zeros' id → spelling signed zeros id = spelling signed' zeros' id
  /-- If the file with the name of the last number is missing, nothing is found, whatever other snapshots
  there are. -/
  latest : store.latest.run.run fs =
    (match ids.getLast? with
      | none => .ok none
      | some id =>
        match store.contents fs id with
        | some bytes => .ok (some (id, bytes))
        | none => .error (.fileNotFound (store.pathOf id)), fs)

/-- Where all entries are files, an entry with the name of a snapshot is one. -/
theorem contents_map (hfiles : ∀ name, fs.entryAt (store.place ++ [name]) ≠ some .directory)
    (id : UInt64) : fs.entryAt (store.place ++ [fileName id]) = (store.contents fs id).map .file := by
  unfold contents
  cases hentry : fs.entryAt (store.place ++ [fileName id]) with
  | none => rfl
  | some entry =>
    cases entry with
    | directory => exact absurd hentry (hfiles _)
    | file bytes => rfl

theorem run_load_eq (hnamed : store.directory ≠ "") (hpresent : store.Present fs)
    (hfiles : ∀ name, fs.entryAt (store.place ++ [name]) ≠ some .directory) (id : UInt64) :
    (store.load id).run.run fs =
      (match store.contents fs id with
        | some bytes => .ok bytes
        | none => .error (.fileNotFound (store.pathOf id)), fs) := by
  have hentry := contents_map hfiles id
  cases hcontents : store.contents fs id with
  | none =>
    rw [hcontents] at hentry
    exact run_load_of_none hnamed hentry
  | some bytes =>
    rw [hcontents] at hentry
    exact run_load_of_file hnamed hpresent hentry

theorem exists_reports (hnamed : store.directory ≠ "") (hpresent : store.Present fs)
    (hfiles : ∀ name, fs.entryAt (store.place ++ [name]) ≠ some .directory) :
    ∃ ids, store.Reports fs ids := by
  obtain ⟨names, hlist, hnames, hmem⟩ := run_list_of_present hnamed hpresent
  have hload := run_load_eq hnamed hpresent hfiles
  have hperm := List.mergeSort_perm (names.filterMap idOf?) fun a b => a ≤ b
  have hspelled (signed : Bool) (zeros : ℕ) (id : UInt64) :
      spelling signed zeros id ∈ names ↔ store.HasSpelling fs signed zeros id := hmem _
  refine ⟨_, hload, hlist, ?_, fun id => ?_, ?_, ?_⟩
  · have hsorted : ((names.filterMap idOf?).mergeSort fun a b => a ≤ b).Pairwise
        fun a b => decide (a ≤ b) = true := by
      apply List.pairwise_mergeSort
      · intro a b c hab hbc
        exact decide_eq_true (UInt64.le_trans (of_decide_eq_true hab) (of_decide_eq_true hbc))
      · intro a b
        simpa using UInt64.le_total a b
    exact hsorted.imp of_decide_eq_true
  · rw [hperm.mem_iff, List.mem_filterMap]
    constructor
    · rintro ⟨name, hname, hid⟩
      obtain ⟨signed, zeros, rfl⟩ := idOf?_eq_some_iff.mp hid
      exact ⟨signed, zeros, (hspelled signed zeros id).mp hname⟩
    · rintro ⟨signed, zeros, hentry⟩
      exact ⟨_, (hspelled signed zeros id).mpr hentry, idOf?_eq_some_iff.mpr ⟨signed, zeros, rfl⟩⟩
  · rw [hperm.nodup_iff, nodup_ids_iff hnames]
    constructor
    · intro h id signed zeros signed' zeros' hfirst hsecond
      exact h _ ((hspelled signed zeros id).mpr hfirst) _ ((hspelled signed' zeros' id).mpr hsecond) id
        (idOf?_eq_some_iff.mpr ⟨signed, zeros, rfl⟩) (idOf?_eq_some_iff.mpr ⟨signed', zeros', rfl⟩)
    · intro h a ha b hb id hid hid'
      obtain ⟨signed, zeros, rfl⟩ := idOf?_eq_some_iff.mp hid
      obtain ⟨signed', zeros', rfl⟩ := idOf?_eq_some_iff.mp hid'
      exact h id signed zeros signed' zeros' ((hspelled ..).mp ha) ((hspelled ..).mp hb)
  · rw [latest, FileTask.run_bind, hlist]
    cases hlast : ((names.filterMap idOf?).mergeSort fun a b => a ≤ b).getLast? with
    | none =>
      simp only [hlast]
      rfl
    | some id =>
      simp only [hlast, FileTask.run_bind, hload]
      cases store.contents fs id <;> rfl

/-- If every name in the directory that spells a number is the name of a file of the store, the files say
what the store holds. -/
theorem holds_contents (hpresent : store.Present fs)
    (hfiles : ∀ name, fs.entryAt (store.place ++ [name]) ≠ some .directory)
    (hplain : ∀ id signed zeros, store.HasSpelling fs signed zeros id → signed = false ∧ zeros = 0) :
    store.Holds (store.contents fs) fs where
  place content h := by cases hpresent.directory.symm.trans h
  snapshots := contents_map hfiles
  others name id hid hne := by
    obtain ⟨signed, zeros, rfl⟩ := idOf?_eq_some_iff.mp hid
    by_contra hentry
    obtain ⟨rfl, rfl⟩ := hplain id signed zeros hentry
    exact hne (spelling_plain id)
  beside id := hfiles _
  present _ _ := hpresent

/-- In a directory of files with any names, a store answers as the map of the snapshots that can be loaded,
that is, it lists each of them once and nothing else and the latest is the last of them, if and only if no
name in the directory spells the number of a checkpoint with a sign or with zeros in front. In any case
every snapshot that can be loaded is in the list, and it is clear what is there besides. -/
theorem lists_loadable_iff (hnamed : store.directory ≠ "") (hpresent : store.Present fs)
    (hfiles : ∀ name, fs.entryAt (store.place ++ [name]) ≠ some .directory) :
    (∃ ids, store.Reports fs ids ∧ ∀ id, (store.contents fs id).isSome = true → id ∈ ids) ∧
      (store.Answers (store.contents fs) fs ↔
        ∀ id signed zeros, store.HasSpelling fs signed zeros id → signed = false ∧ zeros = 0) := by
  obtain ⟨ids, hreports⟩ := exists_reports hnamed hpresent hfiles
  have hspelled {id : UInt64} (hid : (store.contents fs id).isSome = true) :
      store.HasSpelling fs false 0 id := by
    obtain ⟨bytes, hbytes⟩ := Option.isSome_iff_exists.mp hid
    have hentry := contents_map hfiles id
    rw [hbytes, Option.map_some] at hentry
    rw [HasSpelling, spelling_plain, hentry]
    exact Option.some_ne_none _
  refine ⟨⟨ids, hreports, fun id hid => (hreports.mem id).mpr ⟨false, 0, hspelled hid⟩⟩, ?_, ?_⟩
  · intro hanswers id signed zeros hentry
    obtain ⟨ids', hlist, hascending, hmem⟩ := hanswers.list
    obtain rfl : ids = ids' := Except.ok.inj (Prod.mk.inj (hreports.list.symm.trans hlist)).1
    -- The number is in the list, so that its snapshot can be loaded: then it is spelled plainly too.
    have hlisted : id ∈ ids := (hreports.mem id).mpr ⟨signed, zeros, hentry⟩
    have hplain := hspelled ((hmem id).mp hlisted)
    have hnodup : ids.Nodup := hascending.imp fun hlt => UInt64.ne_of_lt hlt
    have hsame := hreports.nodup.mp hnodup id signed zeros false 0 hentry hplain
    rw [spelling_plain] at hsame
    exact eq_plain_of_spelling hsame
  · intro hplain
    exact (holds_contents hpresent hfiles hplain).answers hnamed

end CheckpointedLog.SnapshotStore

namespace CheckpointedLog.SnapshotStore

open scoped FileSystem.AtRoot

/-- Two snapshots and two other files. -/
theorem lists_loadable_beside_notes :
    let store : SnapshotStore := ⟨"snapshots"⟩
    let fs : FileSystem := .ofList [(["snapshots"], .directory),
      (["snapshots", "notes.txt"], .file [1]), (["snapshots", "snapshot-5.bin"], .file [2]),
      (["snapshots", "snapshot-12.bin"], .file [3]), (["snapshots", "snapshot--7.bin"], .file [4])]
    (∀ name, fs.entryAt (store.place ++ [name]) ≠ some .directory) ∧
      store.Answers (store.contents fs) fs ∧ (store.contents fs 5).isSome = true ∧
      (store.contents fs 12).isSome = true ∧
      ∀ id, (store.contents fs id).isSome = true → id = 5 ∨ id = 12 := by
  intro store fs
  have hplace : store.place = ["snapshots"] := by decide +kernel
  have hentries : fs.entries = [(["snapshots"], .directory),
      (["snapshots", "notes.txt"], .file [1]), (["snapshots", "snapshot--7.bin"], .file [4]),
      (["snapshots", "snapshot-12.bin"], .file [3]), (["snapshots", "snapshot-5.bin"], .file [2])] := by
    decide +kernel
  have hpresent : store.Present fs := by
    constructor
    · decide +kernel
    · decide +kernel
  have hnamed : store.directory ≠ "" := by decide
  have hfirst : (store.contents fs 5).isSome = true := by decide +kernel
  have hsecond : (store.contents fs 12).isSome = true := by decide +kernel
  -- What is in the directory is one of the four files.
  have hentry {name : String} {entry : Entry} (h : fs.entryAt (store.place ++ [name]) = some entry) :
      (name, entry) ∈ [("notes.txt", .file [1]), ("snapshot--7.bin", .file [4]),
        ("snapshot-12.bin", .file [3]), ("snapshot-5.bin", Entry.file [2])] := by
    rw [hplace] at h
    have hmem := SortedMap.get?_eq_some_iff.mp h
    rw [hentries] at hmem
    simpa using hmem
  clear_value store fs
  have hfiles (name : String) : fs.entryAt (store.place ++ [name]) ≠ some .directory := by
    intro h
    simpa using hentry h
  -- Two of the four names spell a number.
  have hname {id : UInt64} {signed : Bool} {zeros : ℕ} (h : store.HasSpelling fs signed zeros id) :
      (id = 5 ∨ id = 12) ∧ spelling signed zeros id = fileName id := by
    obtain ⟨entry, h⟩ := Option.ne_none_iff_exists'.mp h
    have hid : idOf? (spelling signed zeros id) = some id := idOf?_eq_some_iff.mpr ⟨_, _, rfl⟩
    have hmem := List.mem_map_of_mem (f := Prod.fst) (hentry h)
    generalize spelling signed zeros id = name at hid hmem
    simp only [List.map_cons, List.map_nil, List.mem_cons, List.not_mem_nil, or_false] at hmem
    rcases hmem with rfl | rfl | rfl | rfl
    · cases hid.symm.trans (show idOf? "notes.txt" = none by decide +kernel)
    · cases hid.symm.trans (show idOf? "snapshot--7.bin" = none by decide +kernel)
    · obtain rfl := Option.some.inj (hid.symm.trans (show _ = some 12 by decide +kernel))
      exact ⟨Or.inr rfl, by decide +kernel⟩
    · obtain rfl := Option.some.inj (hid.symm.trans (show _ = some 5 by decide +kernel))
      exact ⟨Or.inl rfl, by decide +kernel⟩
  have hplain (id : UInt64) (signed : Bool) (zeros : ℕ) (h : store.HasSpelling fs signed zeros id) :
      signed = false ∧ zeros = 0 := eq_plain_of_spelling (hname h).2
  have hloadable := lists_loadable_iff hnamed hpresent hfiles
  obtain ⟨ids, hreports, hlisted⟩ := hloadable.1
  refine ⟨hfiles, hloadable.2.mpr hplain, hfirst, hsecond, fun id hid => ?_⟩
  obtain ⟨signed, zeros, hspelled⟩ := (hreports.mem id).mp (hlisted id hid)
  exact (hname hspelled).1

/-- A file that spells a number with zeros in front is listed, but cannot be loaded: then there is no latest
snapshot, although there is a good one. With a sign in front a snapshot is listed twice. -/
theorem misspelled_hides_snapshot :
    (let store : SnapshotStore := ⟨"snapshots"⟩
      let fs : FileSystem := .ofList [(["snapshots"], .directory),
        (["snapshots", "snapshot-5.bin"], .file [2]), (["snapshots", "snapshot-007.bin"], .file [3])]
      (store.list.run.run fs).1 = .ok [5, 7] ∧ ((store.load 5).run.run fs).1 = .ok [2] ∧
        ((store.load 7).run.run fs).1 = .error (.fileNotFound "snapshots/snapshot-7.bin") ∧
        (store.latest.run.run fs).1 = .error (.fileNotFound "snapshots/snapshot-7.bin")) ∧
    let store : SnapshotStore := ⟨"snapshots"⟩
    let fs : FileSystem := .ofList [(["snapshots"], .directory),
      (["snapshots", "snapshot-5.bin"], .file [2]), (["snapshots", "snapshot-+5.bin"], .file [3])]
    (store.list.run.run fs).1 = .ok [5, 5] := by
  constructor
  · intro store fs
    have hkind : fs.kind? store.directory = some .directory := by decide +kernel
    have hnames : FileSystem.list fs store.directory = .ok ["snapshot-007.bin", "snapshot-5.bin"] := by
      decide +kernel
    have hids : ["snapshot-007.bin", "snapshot-5.bin"].filterMap idOf? = [7, 5] := by decide +kernel
    have hsorted : ([7, 5] : List UInt64).mergeSort (fun a b => a ≤ b) = [5, 7] := by
      simp [List.mergeSort, List.MergeSort.Internal.splitInTwo]
    have hlist := run_list_of_names hkind hnames
    rw [hids, hsorted] at hlist
    have hmissing : (store.load 7).run.run fs = (.error (.fileNotFound "snapshots/snapshot-7.bin"), fs) :=
      Prod.ext (by decide +kernel) (by decide +kernel)
    refine ⟨by rw [hlist], by decide +kernel, by rw [hmissing], ?_⟩
    rw [latest, FileTask.run_bind, hlist]
    simp only [List.getLast?_cons_cons, List.getLast?_singleton, FileTask.run_bind, hmissing]
  · intro store fs
    have hkind : fs.kind? store.directory = some .directory := by decide +kernel
    have hnames : FileSystem.list fs store.directory = .ok ["snapshot-+5.bin", "snapshot-5.bin"] := by
      decide +kernel
    have hids : ["snapshot-+5.bin", "snapshot-5.bin"].filterMap idOf? = [5, 5] := by decide +kernel
    have hsorted : ([5, 5] : List UInt64).mergeSort (fun a b => a ≤ b) = [5, 5] := by
      apply List.mergeSort_of_pairwise
      decide
    have hlist := run_list_of_names hkind hnames
    rw [hids, hsorted] at hlist
    rw [hlist]

end CheckpointedLog.SnapshotStore
