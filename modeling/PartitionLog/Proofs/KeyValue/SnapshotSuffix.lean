import PartitionLog.Proofs.KeyValue.LastWrite

/-!
# A snapshot stands for the log up to its last offset

To the values of a store only the key, the payload and the offset of a record matter: its `Change`.
In a log whose offsets increase, a snapshot that holds the last payloads up to some offset and a
suffix of the log with everything behind that offset have the same last payloads as the whole log
(`lastPayload_snapshot_suffix`), whether the suffix is replayed in full or only from there on.
-/
namespace PartitionLog.KeyValue

structure Change where
  key : StoredKey
  payload : Option Bytes
  offset : Int64
  deriving DecidableEq, Repr

namespace Change

def payload? (key : StoredKey) (c : Change) : Option Bytes :=
  if c.key = key then c.payload else none

end Change

def LoggedRecord.change (r : LoggedRecord) : Change := ⟨r.entry.key, r.entry.payload, r.offset⟩

theorem exists_writes_iff {records : List LoggedRecord} {key : StoredKey} {payload : Bytes} :
    (∃ r ∈ records, r.Writes key payload) ↔
      ∃ c ∈ records.map LoggedRecord.change, c.payload? key = some payload := by
  constructor
  · rintro ⟨r, member, writes⟩
    exact ⟨r.change, List.mem_map_of_mem member, LoggedRecord.writes_iff.mp writes⟩
  · rintro ⟨c, member, sets⟩
    obtain ⟨r, logged, rfl⟩ := List.mem_map.mp member
    exact ⟨r, logged, LoggedRecord.writes_iff.mpr sets⟩

def lastPayload (key : StoredKey) (changes : List Change) : Option Bytes :=
  changes.reverse.findSome? (Change.payload? key)

theorem lastPayload_append (key : StoredKey) (front back : List Change) :
    lastPayload key (front ++ back) = (lastPayload key back).or (lastPayload key front) := by
  rw [lastPayload, List.reverse_append, List.findSome?_append]
  rfl

theorem map_value_latest (readConfig : Reader Json) (key : StoredKey)
    (records : List LoggedRecord) :
    (latest readConfig key records).map Item.value =
      (lastPayload key (records.map LoggedRecord.change)).map
        (Value.decode readConfig (Key.decode key.space key.buffer)) := by
  rw [latest, lastPayload, ← List.map_reverse, List.findSome?_map, List.map_findSome?,
    List.map_findSome?]
  congr 1
  funext r
  simp only [Function.comp_apply, LoggedRecord.item?, LoggedRecord.payload?, Change.payload?,
    LoggedRecord.change, Option.map_map]
  by_cases same : r.entry.key = key
  · simp only [same, if_true]
    cases r.entry.payload with
    | none => rfl
    | some payload => simp [Item.ofEntry, same]
  · simp [same]

/-! ## Changes up to an offset -/

def upTo (w : Int64) (changes : List Change) : List Change := changes.filter (·.offset ≤ w)

def behind (w : Int64) (changes : List Change) : List Change := changes.filter (w < ·.offset)

def Increasing (changes : List Change) : Prop := changes.Pairwise fun a b => a.offset < b.offset

theorem upTo_append_behind {changes : List Change} (increasing : Increasing changes) (w : Int64) :
    upTo w changes ++ behind w changes = changes := by
  induction changes with
  | nil => rfl
  | cons c changes ih =>
    obtain ⟨above, rest⟩ := List.pairwise_cons.mp increasing
    by_cases covered : c.offset ≤ w
    · have front : upTo w (c :: changes) = c :: upTo w changes := by simp [upTo, covered]
      have back : behind w (c :: changes) = behind w changes := by
        simp [behind, Int64.not_lt.mpr covered]
      rw [front, back, List.cons_append, ih rest]
    · have late : w < c.offset := Int64.not_le.mp covered
      have allLate : ∀ d ∈ c :: changes, w < d.offset := by
        intro d member
        rcases List.mem_cons.mp member with rfl | member
        · exact late
        · exact Int64.lt_trans late (above d member)
      have front : upTo w (c :: changes) = [] := by
        rw [upTo, List.filter_eq_nil_iff]
        intro d member
        simpa using Int64.not_le.mpr (allLate d member)
      have back : behind w (c :: changes) = c :: changes := by
        rw [behind, List.filter_eq_self]
        intro d member
        simpa using allLate d member
      rw [front, back, List.nil_append]

/-- A suffix with every change behind an offset lacks only changes up to it. -/
theorem dropped_upTo {w : Int64} {dropped kept : List Change}
    (increasing : Increasing (dropped ++ kept))
    (complete : ∀ c ∈ dropped ++ kept, w < c.offset → c ∈ kept) :
    ∀ c ∈ dropped, c.offset ≤ w := by
  intro c member
  refine Int64.not_lt.mp fun late => ?_
  have again := complete c (List.mem_append_left kept member) late
  exact Int64.lt_irrefl ((List.pairwise_append.mp increasing).2.2 c member c again)

/-- Of the suffix, changes up to the offset may all be skipped or all be left in. -/
theorem lastPayload_snapshot_suffix {w : Int64} {dropped kept : List Change} (key : StoredKey)
    (skip : Bool) (increasing : Increasing (dropped ++ kept))
    (complete : ∀ c ∈ dropped ++ kept, w < c.offset → c ∈ kept) :
    (lastPayload key (kept.filter fun c => !(skip && c.offset ≤ w))).or
        (lastPayload key (upTo w (dropped ++ kept))) =
      lastPayload key (dropped ++ kept) := by
  have early : upTo w dropped = dropped := by
    rw [upTo, List.filter_eq_self]
    intro c member
    simpa using dropped_upTo increasing complete c member
  have front : upTo w (dropped ++ kept) = dropped ++ upTo w kept := by
    rw [← early, upTo, upTo, upTo, List.filter_append, List.filter_filter]
    simp
  have split := upTo_append_behind (List.pairwise_append.mp increasing).2.1 w
  have whole : lastPayload key (dropped ++ kept) =
      (lastPayload key (behind w kept)).or
        ((lastPayload key (upTo w kept)).or (lastPayload key dropped)) := by
    rw [← Option.or_assoc, ← lastPayload_append key (upTo w kept), split, lastPayload_append]
  rw [whole, front, lastPayload_append]
  cases skip with
  | true =>
    have late : (kept.filter fun c => !(true && c.offset ≤ w)) = behind w kept := by
      simp [behind, ← decide_not]
    rw [late]
  | false =>
    have all : (kept.filter fun c => !(false && c.offset ≤ w)) = upTo w kept ++ behind w kept := by
      simp [split]
    have twice (a b : Option Bytes) : a.or (a.or b) = a.or b := by
      rw [← Option.or_assoc, Option.or_self]
    rw [all, lastPayload_append, Option.or_assoc, twice]

/-! ## Stores -/

def StoreLog.changes (config : StoreConfig) (log : StoreLog) : List Change :=
  (log.records config).map LoggedRecord.change

/-- For each key that is set among the changes, the snapshot sets it to its last payload. -/
def SnapshotLog.Holds (snapshot : SnapshotLog) (changes : List Change) : Prop :=
  ∀ key payload, (∃ r ∈ snapshot.records, r.Writes key payload) ↔
    lastPayload key changes = some payload

theorem SnapshotLog.Holds.lastPayload_eq {snapshot : SnapshotLog} {changes : List Change}
    (holds : snapshot.Holds changes) (key : StoredKey) :
    lastPayload key (snapshot.records.map LoggedRecord.change) = lastPayload key changes := by
  have sound (payload : Bytes)
      (found : lastPayload key (snapshot.records.map LoggedRecord.change) = some payload) :
      lastPayload key changes = some payload := by
    obtain ⟨c, member, sets⟩ := List.exists_of_findSome?_eq_some found
    exact (holds key payload).mp (exists_writes_iff.mpr ⟨c, List.mem_reverse.mp member, sets⟩)
  cases found : lastPayload key (snapshot.records.map LoggedRecord.change) with
  | some payload => exact (sound payload found).symm
  | none =>
    symm
    rw [Option.eq_none_iff_forall_not_mem]
    intro payload last
    obtain ⟨c, member, sets⟩ := exists_writes_iff.mp ((holds key payload).mpr last)
    rw [List.findSome?_eq_none_iff.mp found c (List.mem_reverse.mpr member)] at sets
    cases sets

theorem map_value_rebuild (store : Store) (log : StoreLog) (key : StoredKey) :
    ((store.rebuild log).get? key).map Item.value =
      (lastPayload key ((log.applied store.config).map LoggedRecord.change)).map
        (Value.decode store.readConfig (Key.decode key.space key.buffer)) := by
  rw [Store.get?_rebuild, map_value_latest]

/-- Replaying a suffix of the log on a snapshot rebuilds the values that the whole log does. -/
theorem decode_snapshot_suffix {full cut : Store} {tree tree' : FileTree}
    {whole kept : StoreLog} {snapshot : SnapshotLog}
    (sameReader : cut.readConfig = full.readConfig)
    (valid : full.config.validate = .ok ()) (valid' : cut.config.validate = .ok ())
    (wholeRead : full.readLog tree = .ok whole) (wholeSnapshot : whole.snapshot = none)
    (keptRead : cut.readLog tree' = .ok kept) (keptSnapshot : kept.snapshot = some snapshot)
    (increasing : Increasing (whole.changes full.config))
    (suffix : kept.changes cut.config <:+ whole.changes full.config)
    (complete : ∀ c ∈ whole.changes full.config, snapshot.lastOffset < c.offset →
      c ∈ kept.changes cut.config)
    (holds : snapshot.Holds (upTo snapshot.lastOffset (whole.changes full.config))) :
    ∃ state state', full.decode tree = .ok state ∧ cut.decode tree' = .ok state' ∧
      ∀ key, (state'.get? key).map Item.value = (state.get? key).map Item.value := by
  refine ⟨full.rebuild whole, cut.rebuild kept, Store.decode_eq_ok_iff.mpr ⟨valid, _, wholeRead, rfl⟩,
    Store.decode_eq_ok_iff.mpr ⟨valid', _, keptRead, rfl⟩, fun key => ?_⟩
  obtain ⟨dropped, split⟩ := suffix
  rw [map_value_rebuild, map_value_rebuild, sameReader]
  congr 1
  have wholeApplied : whole.applied full.config = whole.records full.config := by
    have noneSkipped : ∀ r ∈ whole.records full.config,
        (!whole.isSkipped full.config r) = true := by
      intro r _
      simp [StoreLog.isSkipped, wholeSnapshot]
    rw [StoreLog.applied, StoreLog.snapshotRecords, wholeSnapshot,
      List.filter_eq_self.mpr noneSkipped]
    rfl
  have keptChanges : (kept.applied cut.config).map LoggedRecord.change =
      snapshot.records.map LoggedRecord.change ++ (kept.changes cut.config).filter fun c =>
        !(cut.config.skipSnapshotCovered && c.offset ≤ snapshot.lastOffset) := by
    simp only [StoreLog.applied, StoreLog.snapshotRecords, StoreLog.isSkipped, keptSnapshot,
      StoreLog.changes, List.map_append, List.filter_map, Option.elim_some, Option.any_some]
    rfl
  rw [wholeApplied, keptChanges, lastPayload_append, holds.lastPayload_eq, ← StoreLog.changes,
    ← split]
  rw [← split] at increasing complete
  exact lastPayload_snapshot_suffix key _ increasing complete

/-! ## A log cut before the last offset of its snapshot -/

namespace Retention

def key (group : Int64) : Key := .consensus .lastAppliedOffset group

def writes : List Write :=
  [.put (key 1) [1], .put (key 1) [2], .put (key 2) [3], .absent (key 1)]

def store (segment : String) (snapshot : Option Path) (config : StoreConfig) : Store where
  partition := ⟨⟨"redpanda", "kvstore", 0⟩, 0, ⟨"/"⟩, [⟨⟨segment⟩⟩], snapshot⟩
  config := config

def full : Store := store "/0-1-v1.log" none {}

def fullTree : FileTree where
  mount := ⟨"/"⟩
  root := .ok (.dir [("0-1-v1.log", .file (Segment.write [batchOfWrites 0 0 writes]))])

def cut : Store := store "/1-1-v1.log" (some ⟨"/snapshot"⟩) { skipSnapshotCovered := true }

def cutTree : FileTree where
  mount := ⟨"/"⟩
  root := .ok (.dir [
    ("1-1-v1.log", .file (Segment.write [batchOfWrites 1 0 (writes.drop 1)])),
    ("snapshot", .file (snapshotOfWrites 1 0 [.put (key 1) [2]]).toSnapshot.write)])

def change (group : Int64) (payload : Option Bytes) (offset : Int64) : Change :=
  ⟨⟨.consensus, (key group).data.write⟩, payload, offset⟩

def kept : List Change := [change 1 (some [2]) 1, change 2 (some [3]) 2, change 1 none 3]

set_option maxRecDepth 20000 in
theorem readLog_full :
    (full.readLog fullTree).toOption.map (fun log => (log.snapshot.isNone, log.changes full.config)) =
      some (true, change 1 (some [1]) 0 :: kept) := by
  decide +kernel

set_option maxRecDepth 20000 in
theorem readLog_cut :
    (cut.readLog cutTree).toOption.map (fun log =>
      (log.snapshot.map fun snapshot =>
        (snapshot.lastOffset, snapshot.records.map LoggedRecord.change), log.changes cut.config)) =
      some (some (1, [change 1 (some [2]) 0]), kept) := by
  decide +kernel

end Retention

theorem decode_snapshot_suffix_retention :
    ∃ state state', Retention.full.decode Retention.fullTree = .ok state ∧
      Retention.cut.decode Retention.cutTree = .ok state' ∧
      ∀ key, (state'.get? key).map Item.value = (state.get? key).map Item.value := by
  obtain ⟨whole, wholeRead, facts⟩ := exists_ok_of_map_eq_some Retention.readLog_full
  obtain ⟨wholeSnapshot, wholeChanges⟩ := Prod.mk.inj facts
  obtain ⟨kept, keptRead, facts⟩ := exists_ok_of_map_eq_some Retention.readLog_cut
  obtain ⟨keptSnapshot, keptChanges⟩ := Prod.mk.inj facts
  obtain ⟨snapshot, found, facts⟩ := Option.map_eq_some_iff.mp keptSnapshot
  obtain ⟨lastOffset, records⟩ := Prod.mk.inj facts
  refine decode_snapshot_suffix rfl rfl rfl wholeRead
    (Option.isNone_iff_eq_none.mp wholeSnapshot) keptRead found ?_ ?_ ?_ ?_
  · rw [wholeChanges, Increasing]
    decide
  · rw [wholeChanges, keptChanges]
    exact List.suffix_cons _ _
  · rw [wholeChanges, keptChanges, lastOffset]
    decide
  · have covered : upTo 1 (Retention.change 1 (some [1]) 0 :: Retention.kept) =
        [Retention.change 1 (some [1]) 0, Retention.change 1 (some [2]) 1] := by decide
    rw [wholeChanges, lastOffset, covered]
    intro key payload
    rw [exists_writes_iff, records]
    by_cases same : (Retention.change 1 (some [2]) 0).key = key
    · subst same
      simp [lastPayload, Change.payload?, Retention.change]
    · have other : ¬ (Retention.change 1 (some [2]) 1).key = key := same
      have first : ¬ (Retention.change 1 (some [1]) 0).key = key := same
      simp [lastPayload, Change.payload?, same, other, first]

end PartitionLog.KeyValue
