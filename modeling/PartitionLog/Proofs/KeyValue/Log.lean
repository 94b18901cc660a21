import PartitionLog.KeyValue.Store
import PartitionLog.Proofs.Except
import PartitionLog.Proofs.Segment.RoundTrip

/-!
# The log behind a store

A rebuild reads and applies its records in turns, but what it reads does not depend on the state.
So it is the same to read everything first, as a `StoreLog`, and to apply that to the empty state
without any failure: `decode_eq_rebuild`.
-/
namespace PartitionLog.KeyValue

structure LoggedRecord where
  header : BatchHeader
  record : Record
  entry : Entry
  decoded : Entry.ofRecord header record = .ok entry

structure LogBatch where
  header : BatchHeader
  /-- None for a batch that is not the store's. -/
  records : List LoggedRecord

structure SnapshotLog where
  lastOffset : Int64
  records : List LoggedRecord

structure StoreLog where
  snapshot : Option SnapshotLog
  segments : List (List LogBatch)

/-! ## Reading -/

namespace LoggedRecord

def read (header : BatchHeader) (record : Record) : Except DecodeError LoggedRecord :=
  match decoded : Entry.ofRecord header record with
  | .ok entry => .ok ⟨header, record, entry, decoded⟩
  | .error e => .error e

theorem map_entry_read (header : BatchHeader) (record : Record) :
    entry <$> read header record = Entry.ofRecord header record := by
  unfold read
  split
  · rename_i decoded
    exact decoded.symm
  · rename_i failed
    exact failed.symm

end LoggedRecord

namespace Store

def readRecord (header : BatchHeader) (record : Record) : Except StoreError LoggedRecord :=
  (LoggedRecord.read header record).mapError (.entry (Entry.offsetOf header record))

def readBatch (store : Store) (path : Path) (batch : Batch) : Except StoreError LogBatch :=
  if batch.header.batchType ≠ store.config.batchType then pure ⟨batch.header, []⟩
  else do
    let records ← (batch.decodeRecords store.config.reader).mapError (.segment path)
    let records ← records.mapM (readRecord batch.header)
    pure ⟨batch.header, records⟩

def readItem (store : Store) (path : Path) (item : Except BatchError Batch) :
    Except StoreError LogBatch := do
  store.readBatch path (← item.mapError (.segment path))

def readSegment (store : Store) (tree : FileTree) (segment : Segment) :
    Except StoreError (List LogBatch) := do
  let cursor ← (segment.batches tree store.config.reader).mapError fun e =>
    .segment segment.path (.io e)
  cursor.items.mapM (store.readItem segment.path)

def readSnapshotLog (store : Store) (tree : FileTree) : Except StoreError (Option SnapshotLog) :=
  match store.partition.snapshot with
  | none => pure none
  | some path => do
    let snapshot ← readSnapshot tree path
    let records ← snapshot.batch.records.mapM (readRecord snapshot.batch.header)
    pure (some ⟨snapshot.lastOffset, records⟩)

def readLog (store : Store) (tree : FileTree) : Except StoreError StoreLog := do
  let snapshot ← store.readSnapshotLog tree
  let segments ← store.partition.segments.mapM (store.readSegment tree)
  pure ⟨snapshot, segments⟩

/-! ## Applying -/

def bootstrapLogged (store : Store) (state : State) (r : LoggedRecord) : State :=
  State.apply store.readConfig
    { state with stats.snapshotRecords := state.stats.snapshotRecords + 1 } r.entry

def bootstrapLog (store : Store) : Option SnapshotLog → State
  | none => {}
  | some snapshot =>
    let state := snapshot.records.foldl (bootstrapLogged store) {}
    { state with stats.snapshotLastOffset := some snapshot.lastOffset }

def replayLogged (store : Store) (state : State) (r : LoggedRecord) : State :=
  let stats := { state.stats with recordsRead := state.stats.recordsRead + 1 }
  if store.isCovered stats.snapshotLastOffset r.entry.offset then
    { state with stats := { stats with recordsSkipped := stats.recordsSkipped + 1 } }
  else
    State.apply store.readConfig
      { state with stats := { stats with recordsApplied := stats.recordsApplied + 1 } } r.entry

def replayLogBatch (store : Store) (state : State) (batch : LogBatch) : State :=
  let stats := { state.stats with batchesRead := state.stats.batchesRead + 1 }
  if batch.header.batchType ≠ store.config.batchType then
    { state with stats := { stats with batchesSkipped := stats.batchesSkipped + 1 } }
  else batch.records.foldl (replayLogged store) { state with stats }

def replayLogSegment (store : Store) (state : State) (batches : List LogBatch) : State :=
  batches.foldl (replayLogBatch store)
    { state with stats.segmentsRead := state.stats.segmentsRead + 1 }

def rebuild (store : Store) (log : StoreLog) : State :=
  log.segments.foldl (replayLogSegment store) (store.bootstrapLog log.snapshot)

/-! ## Reading first -/

theorem decodeEntry_eq (header : BatchHeader) (record : Record) :
    decodeEntry header record = LoggedRecord.entry <$> readRecord header record := by
  rw [decodeEntry, readRecord, ← mapError_map, LoggedRecord.map_entry_read]

theorem bootstrapRecord_eq (store : Store) (header : BatchHeader) (state : State)
    (record : Record) :
    store.bootstrapRecord header state record =
      store.bootstrapLogged state <$> readRecord header record := by
  rw [bootstrapRecord, decodeEntry_eq, bind_map_left, ← bind_pure_comp]
  rfl

theorem bootstrap_eq (store : Store) (tree : FileTree) :
    store.bootstrap tree = store.bootstrapLog <$> store.readSnapshotLog tree := by
  unfold bootstrap readSnapshotLog
  cases store.partition.snapshot with
  | none => rfl
  | some path =>
    simp only [map_bind, foldlM_eq_map_mapM (store.bootstrapRecord_eq _), bind_map_left, map_pure]
    rfl

theorem replayRecord_eq (store : Store) (header : BatchHeader) (state : State) (record : Record) :
    store.replayRecord header state record =
      store.replayLogged state <$> readRecord header record := by
  rw [replayRecord, decodeEntry_eq, bind_map_left, ← bind_pure_comp]
  congr 1
  funext r
  unfold replayLogged
  dsimp only
  split <;> rfl

theorem replayBatch_eq (store : Store) (path : Path) (state : State) (batch : Batch) :
    store.replayBatch path state batch =
      store.replayLogBatch state <$> store.readBatch path batch := by
  unfold replayBatch readBatch
  by_cases foreign : batch.header.batchType ≠ store.config.batchType
  · simp only [if_pos foreign, map_pure, replayLogBatch]
  · simp only [if_neg foreign, map_bind, bind_pure_comp, Functor.map_map, replayLogBatch,
      foldlM_eq_map_mapM (store.replayRecord_eq _)]

theorem replayItem_eq (store : Store) (path : Path) (state : State)
    (item : Except BatchError Batch) :
    store.replayItem path state item =
      store.replayLogBatch state <$> store.readItem path item := by
  simp only [replayItem, readItem, map_bind, replayBatch_eq]

theorem replaySegment_eq (store : Store) (tree : FileTree) (state : State) (segment : Segment) :
    store.replaySegment tree state segment =
      store.replayLogSegment state <$> store.readSegment tree segment := by
  simp only [replaySegment, readSegment, map_bind,
    foldlM_eq_map_mapM (store.replayItem_eq segment.path)]
  rfl

theorem decode_eq_rebuild (store : Store) (tree : FileTree) :
    store.decode tree = (store.config.validate.mapError .config >>= fun _ =>
      store.rebuild <$> store.readLog tree) := by
  simp only [decode, bootstrap_eq, readLog, foldlM_eq_map_mapM (store.replaySegment_eq tree),
    bind_map_left, map_bind, bind_pure_comp, Functor.map_map]
  rfl

theorem readSnapshotLog_congr {store store' : Store} {tree tree' : FileTree}
    (snapshot : store'.partition.snapshot.map tree'.fileContents =
      store.partition.snapshot.map tree.fileContents) :
    store'.readSnapshotLog tree' = store.readSnapshotLog tree := by
  unfold readSnapshotLog
  cases here : store.partition.snapshot with
  | none =>
    rw [here] at snapshot
    rw [Option.map_eq_none_iff.mp snapshot]
  | some path =>
    rw [here] at snapshot
    obtain ⟨path', there, contents⟩ := Option.map_eq_some_iff.mp snapshot
    simp only [there, readSnapshot, contents]

theorem readLog_eq_ok_iff {store : Store} {tree : FileTree} {log : StoreLog} :
    store.readLog tree = .ok log ↔
      store.readSnapshotLog tree = .ok log.snapshot ∧
        store.partition.segments.mapM (store.readSegment tree) = .ok log.segments := by
  obtain ⟨snapshot, segments⟩ := log
  simp only [readLog, bind_eq_ok_iff, pure, Except.pure, Except.ok.injEq, StoreLog.mk.injEq,
    exists_eq_right_right]

theorem decode_eq_ok_iff {store : Store} {tree : FileTree} {state : State} :
    store.decode tree = .ok state ↔
      store.config.validate = .ok () ∧
        ∃ log, store.readLog tree = .ok log ∧ state = store.rebuild log := by
  rw [decode_eq_rebuild]
  cases store.config.validate with
  | error e =>
    change Except.error _ = Except.ok state ↔ _
    simp
  | ok _ =>
    change (store.readLog tree).map store.rebuild = .ok state ↔ _
    rw [map_eq_ok_iff]
    simp only [true_and, eq_comm]

theorem exists_logged {header : BatchHeader} {records : List Record} {entries : List Entry}
    (decoded : records.map (Entry.ofRecord header) = entries.map .ok) :
    ∃ logged, records.mapM (readRecord header) = .ok logged ∧
      logged.map LoggedRecord.entry = entries := by
  induction records generalizing entries with
  | nil => exact ⟨[], rfl, (List.map_eq_nil_iff.mp decoded.symm).symm⟩
  | cons record records ih =>
    obtain ⟨entry, later, rfl, first, rest⟩ := List.map_eq_cons_iff.mp decoded.symm
    obtain ⟨logged, read, same⟩ := ih rest.symm
    have here : LoggedRecord.entry <$> readRecord header record = .ok entry := by
      rw [← decodeEntry_eq, decodeEntry, ← first]
      rfl
    obtain ⟨r, found, rfl⟩ := map_eq_ok_iff.mp here
    exact ⟨r :: logged, mapM_cons_eq_ok_iff.mpr ⟨r, logged, found, read, rfl⟩,
      congrArg (List.cons r.entry) same⟩

/-! ## From the bytes of a segment -/

theorem readItem_unplaced (store : Store) (path : Path) (item : Except BatchError Batch) :
    store.readItem path (BatchCursor.unplaced item) = store.readItem path item := by
  cases item <;> rfl

theorem mapM_readItem_congr {items items' : List (Except BatchError Batch)}
    (same : items'.map BatchCursor.unplaced = items.map BatchCursor.unplaced) (store : Store)
    (path : Path) : items'.mapM (store.readItem path) = items.mapM (store.readItem path) := by
  have unplaced (items : List (Except BatchError Batch)) :
      (items.map BatchCursor.unplaced).mapM (store.readItem path) =
        items.mapM (store.readItem path) := by
    rw [List.mapM_map]
    congr 1
    exact funext (store.readItem_unplaced path)
  rw [← unplaced items', same, unplaced]

theorem error_notMem_of_read {store : Store} {path : Path} {items : List (Except BatchError Batch)}
    {batches : List LogBatch} (read : items.mapM (store.readItem path) = .ok batches) :
    ∀ e, .error e ∉ items := by
  intro e member
  obtain ⟨_, failed⟩ := exists_ok_of_mem read _ member
  cases failed

theorem readSegment_of_contents {store : Store} {tree : FileTree} {segment : Segment} {held : Bytes}
    {items : List (Except BatchError Batch)} (contents : tree.fileContents segment.path = .ok held)
    (reads : BatchCursor.Reads store.config.reader none 0 0 held items) :
    store.readSegment tree segment = items.mapM (store.readItem segment.path) := by
  rw [readSegment, Segment.batches_of_contents contents,
    reads.unique (BatchCursor.reads_ofBytes store.config.reader held)]
  rfl

theorem exists_contents_of_read {store : Store} {tree : FileTree} {segment : Segment}
    {batches : List LogBatch} (read : store.readSegment tree segment = .ok batches) :
    ∃ held, tree.fileContents segment.path = .ok held := by
  rw [readSegment, Segment.batches, FileTree.openFile] at read
  unfold FileTree.fileContents
  cases found : tree.lookup segment.path with
  | error e =>
    rw [found] at read
    cases read
  | ok node =>
    cases node with
    | file held => exact ⟨held, rfl⟩
    | dir entries =>
      rw [found] at read
      cases read

theorem mapM_readItem_ok (store : Store) (path : Path) (batches : List Batch) :
    (batches.map .ok).mapM (store.readItem path) = batches.mapM (store.readBatch path) := by
  rw [List.mapM_map]
  rfl

theorem mapM_readItem_placedFrom (store : Store) (path : Path) (index position : Nat)
    (batches : List Batch) :
    ((BatchCursor.placedFrom index position batches).map .ok).mapM (store.readItem path) =
      batches.mapM (store.readBatch path) := by
  induction batches generalizing index position with
  | nil => rfl
  | cons batch batches ih =>
    rw [BatchCursor.placedFrom, List.map_cons, List.mapM_cons, List.mapM_cons, ih]
    rfl

theorem readSegment_of_written {store : Store} {tree : FileTree} {segment : Segment}
    {batches : List Batch} {tail : Bytes} (ending : Tail store.config.reader tail)
    (intact : ∀ batch ∈ batches, Batch.Intact store.config.reader batch)
    (contents : tree.fileContents segment.path = .ok (batches.flatMap Batch.write ++ tail)) :
    store.readSegment tree segment = batches.mapM (store.readBatch segment.path) := by
  rw [readSegment_of_contents contents (BatchCursor.reads_written ending 0 0 batches intact),
    mapM_readItem_placedFrom]

/-- What is read of segments that hold these batches, one list for each. -/
def readWritten (store : Store) (segments : List Segment) (written : List (List Batch)) :
    Except StoreError (List (List LogBatch)) :=
  (segments.zip written).mapM fun (segment, batches) =>
    batches.mapM (store.readBatch segment.path)

theorem readSegments_of_written {store : Store} {tree : FileTree} {segments : List Segment}
    {written : List (List Batch)}
    (intact : ∀ batches ∈ written, ∀ batch ∈ batches, Batch.Intact store.config.reader batch)
    (contents : (segments.map fun segment => tree.fileContents segment.path) =
      written.map fun batches => .ok (batches.flatMap Batch.write)) :
    segments.mapM (store.readSegment tree) = store.readWritten segments written := by
  induction segments generalizing written with
  | nil => rfl
  | cons segment segments ih =>
    obtain ⟨batches, written, rfl, here, there⟩ := List.map_eq_cons_iff.mp contents.symm
    have contents : tree.fileContents segment.path = .ok (batches.flatMap Batch.write ++ []) := by
      rw [List.append_nil, here]
    rw [readWritten, List.zip_cons_cons, List.mapM_cons, List.mapM_cons, ← readWritten,
      readSegment_of_written (.short (by decide)) (intact batches List.mem_cons_self) contents,
      ih (fun batches member => intact batches (List.mem_cons_of_mem _ member)) there.symm]

theorem decode_of_written {store : Store} {tree : FileTree} {written : List (List Batch)}
    (valid : store.config.validate = .ok ()) (fresh : store.partition.snapshot = none)
    (intact : ∀ batches ∈ written, ∀ batch ∈ batches, Batch.Intact store.config.reader batch)
    (contents : (store.partition.segments.map fun segment => tree.fileContents segment.path) =
      written.map fun batches => .ok (batches.flatMap Batch.write)) :
    store.decode tree =
      (store.readWritten store.partition.segments written).map fun logs =>
        store.rebuild ⟨none, logs⟩ := by
  rw [decode_eq_rebuild, valid, readLog, readSnapshotLog, fresh,
    readSegments_of_written intact contents]
  cases store.readWritten store.partition.segments written <;> rfl

end Store

/-! ## A partition of one segment -/

namespace OneSegment

def segment : Segment := ⟨⟨"/0-1-v1.log"⟩⟩

def partition : Partition := ⟨⟨"redpanda", "kvstore", 0⟩, 0, ⟨"/"⟩, [segment], none⟩

def tree (batches : List Batch) : FileTree :=
  { mount := ⟨"/"⟩, root := .ok (.dir [("0-1-v1.log", .file (batches.flatMap Batch.write))]) }

theorem decode_tree {store : Store} {batches : List Batch} (alone : store.partition = partition)
    (valid : store.config.validate = .ok ())
    (intact : ∀ batch ∈ batches, Batch.Intact store.config.reader batch) :
    store.decode (tree batches) =
      (store.readWritten [segment] [batches]).map fun logs => store.rebuild ⟨none, logs⟩ := by
  have fresh : store.partition.snapshot = none := congrArg Partition.snapshot alone
  have segments : store.partition.segments = [segment] := congrArg Partition.segments alone
  have held : (tree batches).fileContents segment.path = .ok (batches.flatMap Batch.write) :=
    FileTree.fileContents_child "0-1-v1.log" (by decide) (by decide) (by decide) (by decide) rfl
  rw [← segments]
  refine Store.decode_of_written valid fresh ?_ ?_
  · intro only member
    obtain rfl := List.mem_singleton.mp member
    exact intact
  · rw [segments]
    exact congrArg (fun contents => [contents]) held

end OneSegment
end PartitionLog.KeyValue
