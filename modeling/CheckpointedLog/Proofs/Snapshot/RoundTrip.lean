import Mathlib.Algebra.Group.Nat.Defs
import CheckpointedLog.Proofs.OffsetState
import CheckpointedLog.Proofs.Snapshot.Grammar

/-!
Which states can be read back from their snapshot. Any state is written, but only storable offsets are
read; so among the states whose counts fit, exactly the storable ones are read back. That a snapshot is
read back needs no second look at the readers: what is written follows the grammar.
-/
namespace CheckpointedLog

namespace Offset

theorem Means.storable {raw : Int} {o : Offset} (h : Means raw o) : o.Storable := by
  cases h with
  | concrete hlast => exact Int64.le_iff_toInt_le.mpr hlast
  | earliest | latest | groupCommitted => trivial

theorem means_toRaw {o : Offset} (h : o.Storable) : Means o.toRaw.toInt o := by
  cases o with
  | concrete last => exact .concrete (Int64.le_iff_toInt_le.mp h)
  | earliest => exact .earliest
  | latest => exact .latest
  | groupCommitted => exact .groupCommitted

end Offset

namespace OffsetState

/-- The counts of a snapshot of the state fit into its 32-bit fields. -/
structure Countable (s : OffsetState) : Prop where
  size : s.size < 2 ^ 31
  topics : ∀ p, s.contains p = true → (Utf8.encode p.topic).length < 2 ^ 31

theorem countable_of_entries {s : OffsetState} (hsize : s.entries.length < 2 ^ 31)
    (htopics : ∀ e ∈ s.entries, (Utf8.encode e.1.topic).length < 2 ^ 31) : s.Countable := by
  refine ⟨hsize, fun p hp => ?_⟩
  obtain ⟨o, ho⟩ := SortedMap.contains_eq_true_iff.mp hp
  exact htopics (p, o) (SortedMap.get?_eq_some_iff.mp ho)

end OffsetState

namespace Snapshot

theorem EntriesLayout.storable {bytes : Bytes} {entries : List (Partition × Offset)}
    (h : EntriesLayout bytes entries) : ∀ e ∈ entries, e.2.Storable := by
  induction h with
  | nil => exact fun _ he => absurd he List.not_mem_nil
  | cons hentry _ ih =>
    cases hentry with
    | fields _ _ _ _ hmeans => exact List.forall_mem_cons.mpr ⟨hmeans.storable, ih⟩

theorem UnversionedLayout.storable {bytes : Bytes} {s : OffsetState} (h : UnversionedLayout bytes s) :
    s.Storable := by
  cases h with
  | counted _ hbody _ hstate => exact fun p o ho => hbody.storable (p, o) ((hstate p o).mp ho)

theorem readAs_storable {form : SnapshotForm} {bytes : Bytes} {s : OffsetState}
    (h : readAs form bytes = .ok s) : s.Storable := by
  cases form with
  | unversioned => exact (readUnversioned_eq_ok_iff.mp (eq_ok_of_mapError h)).storable
  | tagged =>
    obtain ⟨rest, -, hrest⟩ := readTagged_eq_ok_iff.mp h
    exact hrest.storable

/-- Whatever bytes a snapshot is read from, all its offsets can be stored again. -/
theorem read_storable {bytes : Bytes} {s : OffsetState} (h : read bytes = .ok s) : s.Storable := by
  cases read_eq_ok_iff.mp h with
  | unversioned hlayout | tagged hlayout => exact hlayout.storable

theorem entryLayout_write {p : Partition} {o : Offset} (hp : (Utf8.encode p.topic).length < 2 ^ 31)
    (ho : o.Storable) : EntryLayout (writeEntry p o) (p, o) := by
  have hlength := Wire.spells_writeInt32 (Int32.ofNat (Utf8.encode p.topic).length)
  rw [Int32.toInt_ofNat_of_lt hp] at hlength
  exact .fields hlength rfl (Wire.spells_writeInt32 p.index) (Wire.spells_writeInt64 o.toRaw)
    (Offset.means_toRaw ho)

theorem entriesLayout_write {entries : List (Partition × Offset)}
    (hfit : ∀ e ∈ entries, (Utf8.encode e.1.topic).length < 2 ^ 31 ∧ e.2.Storable) :
    EntriesLayout (entries.flatMap fun e => writeEntry e.1 e.2) entries := by
  induction entries with
  | nil => exact .nil
  | cons e entries ih =>
    obtain ⟨⟨htopic, hoffset⟩, hfit⟩ := List.forall_mem_cons.mp hfit
    rw [List.flatMap_cons]
    exact .cons (entryLayout_write htopic hoffset) (ih hfit)

theorem writeUnversioned_layout {s : OffsetState} (hc : s.Countable) (hs : s.Storable) :
    ∃ count body, writeUnversioned s = count ++ body ∧
      Wire.Spells 4 count s.entries.length ∧ EntriesLayout body s.entries := by
  have hcount := Wire.spells_writeInt32 (Int32.ofNat s.size)
  rw [Int32.toInt_ofNat_of_lt hc.size] at hcount
  refine ⟨_, _, rfl, hcount, entriesLayout_write ?_⟩
  intro e he
  have hget : s.get? e.1 = some e.2 := SortedMap.get?_eq_some_iff.mpr he
  exact ⟨hc.topics e.1 (SortedMap.contains_eq_true_iff.mpr ⟨e.2, hget⟩), hs e.1 e.2 hget⟩

theorem unversionedLayout_write {s : OffsetState} (hc : s.Countable) (hs : s.Storable) :
    UnversionedLayout (writeUnversioned s) s := by
  obtain ⟨count, body, hwrite, hcount, hbody⟩ := writeUnversioned_layout hc hs
  rw [hwrite]
  exact .counted hcount hbody s.nodup_keys fun p o => SortedMap.get?_eq_some_iff

theorem read_write {s : OffsetState} (hc : s.Countable) (hs : s.Storable) :
    read (write s) = .ok s :=
  read_eq_ok_iff.mpr (.tagged (unversionedLayout_write hc hs))

/-- A state whose counts fit is read back from its snapshot exactly if it is storable. -/
theorem read_write_iff {s : OffsetState} (hc : s.Countable) :
    read (write s) = .ok s ↔ s.Storable :=
  ⟨read_storable, read_write hc⟩

/-- Both forms are read back as the state that was written, also by the readers of the releases that
wrote this form. -/
theorem read_undoes_write {s : OffsetState} (hc : s.Countable) (hs : s.Storable) :
    (read (write s) = .ok s ∧ ∀ release ∈ [Release.v0_3, .v1_0], readFrom release (write s) = .ok s) ∧
    (read (writeUnversioned s) = .ok s ∧
      ∀ release ∈ [Release.v0_1, .v0_2], readFrom release (writeUnversioned s) = .ok s) := by
  have hlayout := unversionedLayout_write hc hs
  have htagged : readTagged (write s) = .ok s :=
    readTagged_eq_ok_iff.mpr ⟨writeUnversioned s, rfl, hlayout⟩
  have hold : readAs .unversioned (writeUnversioned s) = .ok s := by
    rw [readAs, readUnversioned_eq_ok_iff.mpr hlayout]
    rfl
  refine ⟨⟨read_write hc hs, ?_⟩, read_eq_ok_iff.mpr (.unversioned hlayout), ?_⟩
  · intro release hrelease
    have hform : release.form = .tagged := by
      revert release
      decide
    rw [readFrom, hform]
    exact htagged
  · intro release hrelease
    have hform : release.form = .unversioned := by
      revert release
      decide
    rw [readFrom, hform]
    exact hold

/-- Names of several bytes, the empty name, a negative index, sentinels, the least and the greatest
offset. -/
theorem read_undoes_write_mixed :
    let s : OffsetState := .ofList [(⟨"größe", -1⟩, .concrete (-1)), (⟨"", 0⟩, .latest),
      (⟨"日本", -2147483648⟩, .earliest), (⟨"a:b", 7⟩, .groupCommitted),
      (⟨"😀", 2147483647⟩, .concrete 9223372036854775807)]
    s.Countable ∧ s.Storable ∧
    (read (write s) = .ok s ∧ ∀ release ∈ [Release.v0_3, .v1_0], readFrom release (write s) = .ok s) ∧
    (read (writeUnversioned s) = .ok s ∧
      ∀ release ∈ [Release.v0_1, .v0_2], readFrom release (writeUnversioned s) = .ok s) := by
  intro s
  have hc : s.Countable := OffsetState.countable_of_entries (by decide +kernel) (by decide +kernel)
  have hs : s.Storable := by
    intro p o ho
    have hmem : ∀ e ∈ s.entries, e.2.Storable := by decide +kernel
    exact hmem (p, o) (SortedMap.get?_eq_some_iff.mp ho)
  exact ⟨hc, hs, read_undoes_write hc hs⟩

end Snapshot

end CheckpointedLog
