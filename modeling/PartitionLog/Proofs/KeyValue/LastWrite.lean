import PartitionLog.KeyValue.Fixture
import PartitionLog.Partition.Fixture
import PartitionLog.Proofs.KeyValue.KeyOrder
import PartitionLog.Proofs.KeyValue.Log
import PartitionLog.Proofs.Partition.ReplayOrder

/-!
# The last write wins

`StoreLog.applied` lists the records of a log that a rebuild applies. What the rebuilt state holds
for a key is the item of the last of them that sets the key (`get?_rebuild`), through all levels of
the replay: segments, batches and records each extend the applied records by their own
(`Applies.foldl`).
-/
namespace PartitionLog.KeyValue

/-! ## Records -/

namespace LoggedRecord

def Writes (r : LoggedRecord) (key : StoredKey) (payload : Bytes) : Prop :=
  (StoredKey.read.run (r.record.key.getD [])).1 = .ok key ∧
    Entry.payloadOf r.record.value = .ok (some payload)

def offset (r : LoggedRecord) : Int64 := r.header.baseOffset + r.record.offsetDelta

def payload? (key : StoredKey) (r : LoggedRecord) : Option Bytes :=
  if r.entry.key = key then r.entry.payload else none

def item? (readConfig : Reader Json) (key : StoredKey) (r : LoggedRecord) : Option Item :=
  (r.payload? key).map (Item.ofEntry readConfig r.entry)

theorem entry_parts (r : LoggedRecord) :
    (StoredKey.read.run (r.record.key.getD [])).1 = .ok r.entry.key ∧
      Entry.payloadOf r.record.value = .ok r.entry.payload ∧
      r.entry.offset = r.offset ∧ r.entry.epoch = r.header.firstTimestamp := by
  have decoded := r.decoded
  unfold Entry.ofRecord at decoded
  cases key : (StoredKey.read.run (r.record.key.getD [])).1 with
  | error e => simp [key, bind, Except.bind] at decoded
  | ok k =>
    cases payload : Entry.payloadOf r.record.value with
    | error e => simp [key, payload, bind, Except.bind] at decoded
    | ok p =>
      simp only [key, payload, bind, Except.bind, pure, Except.pure, Except.ok.injEq] at decoded
      rw [← decoded]
      exact ⟨rfl, rfl, rfl, rfl⟩

theorem writes_iff {r : LoggedRecord} {key : StoredKey} {payload : Bytes} :
    r.Writes key payload ↔ r.payload? key = some payload := by
  obtain ⟨k, p, -, -⟩ := r.entry_parts
  rw [Writes, k, p, payload?]
  by_cases same : r.entry.key = key <;> simp [same]

end LoggedRecord

def latest (readConfig : Reader Json) (key : StoredKey) (records : List LoggedRecord) :
    Option Item :=
  records.reverse.findSome? (LoggedRecord.item? readConfig key)

theorem latest_append (readConfig : Reader Json) (key : StoredKey)
    (front back : List LoggedRecord) :
    latest readConfig key (front ++ back) =
      (latest readConfig key back).or (latest readConfig key front) := by
  rw [latest, List.reverse_append, List.findSome?_append]
  rfl

theorem latest_singleton (readConfig : Reader Json) (key : StoredKey) (r : LoggedRecord) :
    latest readConfig key [r] = r.item? readConfig key := by
  cases item : r.item? readConfig key <;> simp [latest, item]

theorem isSome_latest_iff {readConfig : Reader Json} {key : StoredKey}
    {records : List LoggedRecord} :
    (latest readConfig key records).isSome ↔ ∃ r ∈ records, ∃ payload, r.Writes key payload := by
  simp only [latest, List.isSome_findSome?, List.any_reverse, List.any_eq_true,
    LoggedRecord.item?, Option.isSome_map, Option.isSome_iff_exists, LoggedRecord.writes_iff]

theorem latest_of_last {readConfig : Reader Json} {key : StoredKey} {payload : Bytes}
    {before after : List LoggedRecord} {last : LoggedRecord} (writes : last.Writes key payload)
    (final : ∀ r ∈ after, ∀ payload, ¬ r.Writes key payload) :
    latest readConfig key (before ++ last :: after) =
      some (Item.ofEntry readConfig last.entry payload) := by
  have silent : latest readConfig key after = none := by
    rw [← Option.not_isSome_iff_eq_none, isSome_latest_iff]
    rintro ⟨r, member, payload, writes⟩
    exact final r member payload writes
  have item : last.item? readConfig key = some (Item.ofEntry readConfig last.entry payload) := by
    rw [LoggedRecord.item?, LoggedRecord.writes_iff.mp writes, Option.map_some]
  rw [List.append_cons, latest_append, latest_append, latest_singleton, silent, item]
  rfl

theorem State.get?_apply (readConfig : Reader Json) (state : State) (r : LoggedRecord)
    (key : StoredKey) :
    (State.apply readConfig state r.entry).get? key =
      (r.item? readConfig key).or (state.get? key) := by
  unfold State.apply LoggedRecord.item? LoggedRecord.payload?
  cases payload : r.entry.payload with
  | none => simp [State.get?]
  | some payload =>
    by_cases same : r.entry.key = key
    · subst same
      simp [State.get?, SortedMap.get?_insert_self]
    · have other : key ≠ r.entry.key := fun h => same h.symm
      simp [State.get?, same, SortedMap.get?_insert_of_ne other]

@[simp] theorem State.watermark_apply (readConfig : Reader Json) (state : State)
    (entry : Entry) :
    (State.apply readConfig state entry).stats.snapshotLastOffset =
      state.stats.snapshotLastOffset := by
  unfold State.apply
  split <;> rfl

/-! ## Runs of records -/

structure Applies (readConfig : Reader Json) (records : List LoggedRecord)
    (before after : State) : Prop where
  watermark : after.stats.snapshotLastOffset = before.stats.snapshotLastOffset
  get? : ∀ key, after.get? key = (latest readConfig key records).or (before.get? key)

namespace Applies

variable {readConfig : Reader Json}

theorem refl (state : State) : Applies readConfig [] state state := ⟨rfl, fun _ => rfl⟩

theorem trans {front back : List LoggedRecord} {before middle after : State}
    (first : Applies readConfig front before middle)
    (second : Applies readConfig back middle after) :
    Applies readConfig (front ++ back) before after := by
  refine ⟨second.watermark.trans first.watermark, fun key => ?_⟩
  rw [second.get?, first.get?, latest_append, Option.or_assoc]

theorem apply (state : State) (r : LoggedRecord) :
    Applies readConfig [r] state (State.apply readConfig state r.entry) := by
  refine ⟨State.watermark_apply readConfig state r.entry, fun key => ?_⟩
  rw [State.get?_apply, latest_singleton]

/-- Counters may change before any record is applied. -/
theorem of_entries_eq {records : List LoggedRecord} {before counted after : State}
    (applies : Applies readConfig records counted after)
    (entries : counted.entries = before.entries)
    (watermark : counted.stats.snapshotLastOffset = before.stats.snapshotLastOffset) :
    Applies readConfig records before after := by
  refine ⟨applies.watermark.trans watermark, fun key => ?_⟩
  rw [applies.get?, State.get?, State.get?, entries]

/-- A fold applies what its steps apply, where these may look at the offset the snapshot ends at. -/
theorem foldl {α : Type} {step : State → α → State}
    (records : Option Int64 → α → List LoggedRecord)
    (applies : ∀ state x, Applies readConfig (records state.stats.snapshotLastOffset x) state
      (step state x))
    (xs : List α) (state : State) :
    Applies readConfig (xs.flatMap (records state.stats.snapshotLastOffset)) state
      (xs.foldl step state) := by
  induction xs generalizing state with
  | nil => exact refl state
  | cons x xs ih =>
    have rest := ih (step state x)
    rw [(applies state x).watermark] at rest
    exact (applies state x).trans rest

end Applies

/-! ## The replay of a log -/

def LogBatch.storeRecords (config : StoreConfig) (batch : LogBatch) : List LoggedRecord :=
  if batch.header.batchType = config.batchType then batch.records else []

namespace StoreLog

def snapshotRecords (log : StoreLog) : List LoggedRecord :=
  log.snapshot.elim [] SnapshotLog.records

def records (config : StoreConfig) (log : StoreLog) : List LoggedRecord :=
  log.segments.flatten.flatMap (LogBatch.storeRecords config)

def isSkipped (config : StoreConfig) (log : StoreLog) (r : LoggedRecord) : Bool :=
  config.skipSnapshotCovered && log.snapshot.any fun snapshot => r.offset ≤ snapshot.lastOffset

def applied (config : StoreConfig) (log : StoreLog) : List LoggedRecord :=
  log.snapshotRecords ++ (log.records config).filter fun r => !log.isSkipped config r

end StoreLog

namespace Store

/-- The records that a replay behind a snapshot up to `lastOffset` applies. -/
def kept (store : Store) (lastOffset : Option Int64) (records : List LoggedRecord) :
    List LoggedRecord :=
  records.filter fun r => !store.isCovered lastOffset r.offset

theorem flatMap_kept {α : Type} (store : Store) (lastOffset : Option Int64)
    (records : α → List LoggedRecord) (xs : List α) :
    xs.flatMap (fun x => store.kept lastOffset (records x)) =
      store.kept lastOffset (xs.flatMap records) :=
  List.filter_flatMap.symm

theorem applies_bootstrapLogged (store : Store) (state : State) (r : LoggedRecord) :
    Applies store.readConfig [r] state (store.bootstrapLogged state r) :=
  (Applies.apply _ r).of_entries_eq rfl rfl

theorem applies_replayLogged (store : Store) (state : State) (r : LoggedRecord) :
    Applies store.readConfig (store.kept state.stats.snapshotLastOffset [r]) state
      (store.replayLogged state r) := by
  obtain ⟨-, -, offset, -⟩ := r.entry_parts
  unfold replayLogged
  rw [offset]
  by_cases covered : store.isCovered state.stats.snapshotLastOffset r.offset = true
  · simp only [covered, kept, List.filter_cons, Bool.not_true, Bool.false_eq_true, if_false,
      List.filter_nil, if_true]
    exact ⟨rfl, fun _ => rfl⟩
  · simp only [covered, kept, List.filter_cons, Bool.not_false, if_true, List.filter_nil,
      Bool.false_eq_true, if_false]
    exact (Applies.apply _ r).of_entries_eq rfl rfl

theorem applies_replayLogBatch (store : Store) (state : State) (batch : LogBatch) :
    Applies store.readConfig
      (store.kept state.stats.snapshotLastOffset (batch.storeRecords store.config)) state
      (store.replayLogBatch state batch) := by
  unfold replayLogBatch LogBatch.storeRecords
  by_cases own : batch.header.batchType = store.config.batchType
  · simp only [own, ne_eq, not_true_eq_false, if_false, if_true]
    have run := Applies.foldl (fun lastOffset r => store.kept lastOffset [r])
      store.applies_replayLogged batch.records
      { state with stats.batchesRead := state.stats.batchesRead + 1 }
    rw [flatMap_kept, List.flatMap_singleton'] at run
    exact run.of_entries_eq rfl rfl
  · simp only [own, ne_eq, not_false_eq_true, if_true, if_false]
    exact ⟨rfl, fun _ => rfl⟩

theorem applies_replayLogSegment (store : Store) (state : State) (batches : List LogBatch) :
    Applies store.readConfig
      (store.kept state.stats.snapshotLastOffset
        (batches.flatMap (LogBatch.storeRecords store.config))) state
      (store.replayLogSegment state batches) := by
  have run := Applies.foldl
    (fun lastOffset batch => store.kept lastOffset (batch.storeRecords store.config))
    store.applies_replayLogBatch batches
    { state with stats.segmentsRead := state.stats.segmentsRead + 1 }
  rw [flatMap_kept] at run
  exact run.of_entries_eq rfl rfl

theorem get?_bootstrapLog (store : Store) (snapshot : Option SnapshotLog) (key : StoredKey) :
    (store.bootstrapLog snapshot).get? key =
      latest store.readConfig key (snapshot.elim [] SnapshotLog.records) := by
  cases snapshot with
  | none => rfl
  | some snapshot =>
    have run := Applies.foldl (fun _ r => [r]) store.applies_bootstrapLogged snapshot.records {}
    rw [List.flatMap_singleton'] at run
    exact (run.get? key).trans (Option.or_none)

theorem watermark_bootstrapLog (store : Store) (snapshot : Option SnapshotLog) :
    (store.bootstrapLog snapshot).stats.snapshotLastOffset =
      snapshot.map SnapshotLog.lastOffset := by
  cases snapshot <;> rfl

theorem applied_eq (store : Store) (log : StoreLog) :
    log.applied store.config = log.snapshotRecords ++
      store.kept (log.snapshot.map SnapshotLog.lastOffset) (log.records store.config) := by
  simp only [StoreLog.applied, kept, isCovered, StoreLog.isSkipped, Option.any_map]

theorem get?_rebuild (store : Store) (log : StoreLog) (key : StoredKey) :
    (store.rebuild log).get? key = latest store.readConfig key (log.applied store.config) := by
  have run := Applies.foldl
    (fun lastOffset batches =>
      store.kept lastOffset (batches.flatMap (LogBatch.storeRecords store.config)))
    store.applies_replayLogSegment log.segments (store.bootstrapLog log.snapshot)
  rw [flatMap_kept, watermark_bootstrapLog, ← List.flatMap_assoc] at run
  rw [applied_eq, latest_append, StoreLog.records, StoreLog.snapshotRecords, ← get?_bootstrapLog,
    List.flatten_eq_flatMap]
  exact run.get? key

theorem mem_keys_rebuild_iff {store : Store} {log : StoreLog} {key : StoredKey} :
    key ∈ (store.rebuild log).entries.map Prod.fst ↔
      ∃ r ∈ log.applied store.config, ∃ payload, r.Writes key payload := by
  rw [← SortedMap.isSome_get?_iff]
  change ((store.rebuild log).get? key).isSome ↔ _
  rw [get?_rebuild, isSome_latest_iff]

end Store

theorem LoggedRecord.item_eq {readConfig : Reader Json} {key : StoredKey} {payload : Bytes}
    {r : LoggedRecord} (writes : r.Writes key payload) :
    Item.ofEntry readConfig r.entry payload =
      { key := Key.decode key.space key.buffer
        value := Value.decode readConfig (Key.decode key.space key.buffer) payload
        offset := r.offset
        timestamp := Timestamp.format r.header.firstTimestamp } := by
  obtain ⟨key', -, offset, epoch⟩ := r.entry_parts
  have same : r.entry.key = key := by
    rw [writes.1, Except.ok.injEq] at key'
    exact key'.symm
  rw [Item.ofEntry, Entry.timestamp, same, offset, epoch]

/-- A key is there if an applied record sets it, and then it has the item of the last such record.
The records come from the files of the directory that are segments, in replay order. -/
theorem decode_lastWriteWins {tree : FileTree} {ntp : Ntp} {revision : Int64} {path : Path}
    {entries : List (RawText × FileNode)} {config : StoreConfig} {readConfig : Reader Json}
    {state : State}
    (decoded : Store.decode ⟨.ofEntries ntp revision path entries, config, readConfig⟩ tree =
      .ok state) :
    (∃ named, Partition.ReplayOrder (Partition.fileNames entries) named ∧
      (Partition.ofEntries ntp revision path entries).segments =
        named.map fun segment => ⟨path.join segment.2⟩) ∧
    ∃ log,
      Store.readLog ⟨.ofEntries ntp revision path entries, config, readConfig⟩ tree = .ok log ∧
      ∀ key,
        ((state.get? key).isSome ↔
          ∃ r ∈ log.applied config, ∃ payload, r.Writes key payload) ∧
        ∀ before last after payload, log.applied config = before ++ last :: after →
          last.Writes key payload → (∀ r ∈ after, ∀ payload, ¬ r.Writes key payload) →
          state.get? key = some
            { key := Key.decode key.space key.buffer
              value := Value.decode readConfig (Key.decode key.space key.buffer) payload
              offset := last.offset
              timestamp := Timestamp.format last.header.firstTimestamp } := by
  constructor
  · obtain ⟨named, order, names⟩ :=
      Partition.segmentNames_replayOrder (Partition.fileNames entries)
    refine ⟨named, order, ?_⟩
    rw [Partition.ofEntries, names, List.map_map]
    rfl
  · obtain ⟨-, log, read, rfl⟩ := Store.decode_eq_ok_iff.mp decoded
    refine ⟨log, read, fun key => ?_⟩
    rw [Store.get?_rebuild]
    refine ⟨isSome_latest_iff, ?_⟩
    intro before last after payload split writes final
    rw [split, latest_of_last writes final, LoggedRecord.item_eq writes]

/-! ## A directory whose names are not listed in replay order -/

namespace Sample

def key : Key := .consensus .lastAppliedOffset 1

def files : List (RawText × FileNode) := [
  ("100-1-v1.log", .file (Segment.write [batchOfWrites 100 0 [.put key (Wire.i64 100)]])),
  ("20-1-v1.log", .file (Segment.write [batchOfWrites 20 0 [.put key (Wire.i64 20)]])),
  ("snapshot", .file (snapshotOfWrites 20 0 [.put key (Wire.i64 5)]).toSnapshot.write)]

def tree : FileTree := { mount := ⟨"/"⟩, root := .ok (.dir [("0_0", .dir files)]) }

def partition : Partition where
  ntp := ⟨"redpanda", "kvstore", 0⟩
  revision := 0
  path := ⟨"/0_0"⟩
  segments := [⟨⟨"/0_0/20-1-v1.log"⟩⟩, ⟨⟨"/0_0/100-1-v1.log"⟩⟩]
  snapshot := some ⟨"/0_0/snapshot"⟩

theorem ofEntries_files : Partition.ofEntries partition.ntp 0 partition.path files = partition := by
  have named : (Partition.fileNames files).filterMap
      (fun name => (SegmentName.ofString name).map (·, name)) =
        [(⟨100, 1, 1⟩, "100-1-v1.log"), (⟨20, 1, 1⟩, "20-1-v1.log")] := by
    decide +kernel
  have sorted : Partition.segmentNames (Partition.fileNames files) =
      ["20-1-v1.log", "100-1-v1.log"] := by
    rw [Partition.segmentNames, named]
    simp [List.mergeSort, SegmentName.le]
  rw [Partition.ofEntries, sorted]
  decide +kernel

set_option maxRecDepth 20000 in
theorem decode_partition :
    (Store.decode ⟨partition, { skipSnapshotCovered := true }, RaftConfig.readJson⟩
      tree).toOption.map (fun state => state.items.map Item.offset) = some [100] := by
  decide +kernel

end Sample

theorem decode_lastWriteWins_directory :
    ∃ state, Store.decode ⟨.ofEntries Sample.partition.ntp 0 Sample.partition.path Sample.files,
        { skipSnapshotCovered := true }, RaftConfig.readJson⟩ Sample.tree = .ok state ∧
      ∃ log, Store.readLog ⟨.ofEntries Sample.partition.ntp 0 Sample.partition.path Sample.files,
          { skipSnapshotCovered := true }, RaftConfig.readJson⟩ Sample.tree = .ok log ∧
        ∀ key, (state.get? key).isSome ↔
          ∃ r ∈ log.applied { skipSnapshotCovered := true }, ∃ payload, r.Writes key payload := by
  have run := Sample.decode_partition
  rw [← Sample.ofEntries_files] at run
  obtain ⟨state, decoded, -⟩ := exists_ok_of_map_eq_some run
  obtain ⟨-, log, read, keys⟩ := decode_lastWriteWins decoded
  exact ⟨state, decoded, log, read, fun key => (keys key).1⟩

end PartitionLog.KeyValue
