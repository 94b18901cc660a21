import PartitionLog.Proofs.Batch.RecordFrames
import PartitionLog.Proofs.KeyValue.Accounting
import PartitionLog.Proofs.KeyValue.SnapshotSuffix
import PartitionLog.Proofs.KeyValue.Surplus

/-!
# What a rebuild counts

Each step of a replay moves the counters by segments, batches and records (`ReplayStats.counting`),
and steps that follow one another add up. So the counters of a rebuilt state can be read off its
log: `Store.stats_rebuild`. The sizes in the log are those that the batches on disk declare
(`Store.ownLengths_of_readLog`), and the live keys are the distinct ones among the keys of the
applied records with a payload (`Store.size_rebuild`).
-/
namespace PartitionLog.KeyValue

def LoggedRecord.isAbsent (r : LoggedRecord) : Bool := r.entry.payload.isNone

/-! ## Steps -/

namespace ReplayStats

/-- After so many segments, and these batches and records. -/
def counting (stats : ReplayStats) (store : Store) (segments : Nat) (batches : List LogBatch)
    (records : List LoggedRecord) : ReplayStats :=
  let kept := store.kept stats.snapshotLastOffset records
  { stats with
    segmentsRead := stats.segmentsRead + segments
    batchesRead := stats.batchesRead + batches.length
    batchesSkipped := stats.batchesSkipped +
      batches.countP (·.header.batchType ≠ store.config.batchType)
    recordsRead := stats.recordsRead + records.length
    recordsSkipped := stats.recordsSkipped +
      records.countP fun r => store.isCovered stats.snapshotLastOffset r.offset
    recordsApplied := stats.recordsApplied + kept.length
    absentPayloads := stats.absentPayloads + kept.countP LoggedRecord.isAbsent }

theorem counting_nil (stats : ReplayStats) (store : Store) : stats.counting store 0 [] [] = stats :=
  rfl

theorem counting_counting (stats : ReplayStats) (store : Store) (segments segments' : Nat)
    (batches batches' : List LogBatch) (records records' : List LoggedRecord) :
    (stats.counting store segments batches records).counting store segments' batches' records' =
      stats.counting store (segments + segments') (batches ++ batches') (records ++ records') := by
  simp [counting, Store.kept, Nat.add_assoc]

end ReplayStats

namespace State

theorem stats_apply (readConfig : Reader Json) (state : State) (entry : Entry) :
    (State.apply readConfig state entry).stats =
      if entry.payload.isNone then state.stats.addAbsent else state.stats := by
  unfold State.apply
  cases entry.payload <;> rfl

theorem stats_foldl {α : Type} {store : Store} {step : State → α → State} {segments : Nat}
    {batches : α → List LogBatch} {records : α → List LoggedRecord}
    (each : ∀ state x, (step state x).stats =
      state.stats.counting store segments (batches x) (records x))
    (xs : List α) (state : State) :
    (xs.foldl step state).stats =
      state.stats.counting store (xs.length * segments) (xs.flatMap batches)
        (xs.flatMap records) := by
  -- What a step skips goes by the offset the snapshot ends at, and no count moves that.
  induction xs generalizing state with
  | nil => simp [ReplayStats.counting_nil]
  | cons x xs ih =>
    have all : segments + xs.length * segments = (x :: xs).length * segments := by
      rw [List.length_cons, Nat.succ_mul, Nat.add_comm]
    rw [List.foldl_cons, ih, each, ReplayStats.counting_counting, all, List.flatMap_cons,
      List.flatMap_cons]

end State

namespace Store

variable (store : Store)

theorem stats_replayLogged (state : State) (r : LoggedRecord) :
    (store.replayLogged state r).stats = state.stats.counting store 0 [] [r] := by
  obtain ⟨-, -, offset, -⟩ := r.entry_parts
  change (store.replayEntry state r.entry).stats = _
  by_cases covered : store.isCovered state.stats.snapshotLastOffset r.entry.offset = true
  · rw [replayEntry_of_covered covered]
    rw [offset] at covered
    simp [ReplayStats.counting, kept, covered, State.mapStats, ReplayStats.addSkipped]
  · rw [replayEntry_of_uncovered covered, State.stats_apply]
    rw [offset] at covered
    by_cases absent : r.entry.payload.isNone = true <;>
      simp [ReplayStats.counting, kept, covered, absent, State.mapStats, LoggedRecord.isAbsent,
        ReplayStats.addApplied, ReplayStats.addAbsent]

theorem stats_replayLogBatch (state : State) (batch : LogBatch) :
    (store.replayLogBatch state batch).stats =
      state.stats.counting store 0 [batch] (batch.storeRecords store.config) := by
  unfold replayLogBatch LogBatch.storeRecords
  by_cases own : batch.header.batchType = store.config.batchType
  · have run := State.stats_foldl store.stats_replayLogged batch.records
      { state with stats.batchesRead := state.stats.batchesRead + 1 }
    have framed : batch.records.flatMap (fun _ => ([] : List LogBatch)) = [] := by simp
    rw [List.flatMap_singleton', framed] at run
    simp only [own, ne_eq, not_true_eq_false, if_false, if_true, run]
    simp [ReplayStats.counting, own]
  · simp [own, ReplayStats.counting, kept]

theorem stats_replayLogSegment (state : State) (batches : List LogBatch) :
    (store.replayLogSegment state batches).stats =
      state.stats.counting store 1 batches
        (batches.flatMap (LogBatch.storeRecords store.config)) := by
  have run := State.stats_foldl store.stats_replayLogBatch batches
    { state with stats.segmentsRead := state.stats.segmentsRead + 1 }
  rw [List.flatMap_singleton'] at run
  exact run

theorem stats_bootstrapLogged (records : List LoggedRecord) (state : State) :
    (records.foldl store.bootstrapLogged state).stats =
      { state.stats with
        snapshotRecords := state.stats.snapshotRecords + records.length
        absentPayloads := state.stats.absentPayloads + records.countP LoggedRecord.isAbsent } := by
  induction records generalizing state with
  | nil => rfl
  | cons r records ih =>
    rw [List.foldl_cons, ih, bootstrapLogged, State.stats_apply]
    by_cases absent : r.entry.payload.isNone = true <;>
      simp [absent, LoggedRecord.isAbsent, ReplayStats.addAbsent, Nat.add_right_comm,
        ← Nat.add_assoc]

theorem stats_bootstrapLog (log : StoreLog) :
    (store.bootstrapLog log.snapshot).stats =
      { snapshotLastOffset := log.snapshot.map SnapshotLog.lastOffset
        snapshotRecords := log.snapshotRecords.length
        absentPayloads := log.snapshotRecords.countP LoggedRecord.isAbsent } := by
  unfold StoreLog.snapshotRecords
  cases log.snapshot with
  | none => rfl
  | some snapshot => simp [bootstrapLog, stats_bootstrapLogged]

theorem stats_rebuild (log : StoreLog) :
    (store.rebuild log).stats =
      { snapshotLastOffset := log.snapshot.map SnapshotLog.lastOffset
        snapshotRecords := log.snapshotRecords.length
        segmentsRead := log.segments.length
        batchesRead := log.segments.flatten.length
        batchesSkipped :=
          log.segments.flatten.countP (·.header.batchType ≠ store.config.batchType)
        recordsRead := (log.records store.config).length
        recordsSkipped := (log.records store.config).countP (log.isSkipped store.config)
        recordsApplied := (log.records store.config).countP (!log.isSkipped store.config ·)
        absentPayloads := (log.applied store.config).countP LoggedRecord.isAbsent } := by
  have run := State.stats_foldl store.stats_replayLogSegment log.segments
    (store.bootstrapLog log.snapshot)
  have flat : log.segments.flatMap (·.flatMap (LogBatch.storeRecords store.config)) =
      log.records store.config := by
    rw [StoreLog.records, List.flatten_eq_flatMap, List.flatMap_assoc]
    rfl
  have framed : log.segments.flatMap (fun batches => batches) = log.segments.flatten :=
    List.flatten_eq_flatMap.symm
  rw [stats_bootstrapLog, flat, framed, Nat.mul_one] at run
  rw [rebuild, run, applied_eq, List.countP_append]
  simp only [ReplayStats.counting, kept, StoreLog.isSkipped, isCovered,
    List.countP_eq_length_filter, Option.any_map, Nat.zero_add]
  rfl

/-! ## The batches behind the counters -/

variable {store}

theorem records_length_of_read {path : Path} {batch : Batch} {logged : LogBatch}
    (read : store.readBatch path batch = .ok logged) :
    logged.header = batch.header ∧
      (batch.header.batchType = store.config.batchType →
        logged.records.length = batch.recordCount) := by
  unfold readBatch at read
  split at read
  · rename_i other
    cases read
    exact ⟨rfl, fun own => absurd own other⟩
  · obtain ⟨records, decoded, read⟩ := bind_eq_ok_iff.mp read
    obtain ⟨logs, entries, made⟩ := bind_eq_ok_iff.mp read
    cases made
    obtain ⟨rest, found, -⟩ := Batch.decodeRecords_eq_ok_iff.mp (mapError_eq_ok_iff.mp decoded)
    obtain ⟨frames, counted, -, held⟩ := RecordFrame.exists_frames found
    exact ⟨rfl, fun _ => ((length_of_mapM entries).trans held.length_eq.symm).trans counted⟩

end Store

def LogBatch.ownLengths (config : StoreConfig) (batches : List LogBatch) : List Nat :=
  (batches.filter (·.header.batchType = config.batchType)).map (·.records.length)

theorem LogBatch.sum_ownLengths (config : StoreConfig) (batches : List LogBatch) :
    (ownLengths config batches).sum = (batches.flatMap (storeRecords config)).length := by
  unfold ownLengths
  induction batches with
  | nil => rfl
  | cons batch batches ih =>
    rw [List.flatMap_cons, List.length_append, ← ih, storeRecords]
    by_cases own : batch.header.batchType = config.batchType <;> simp [own]

theorem LogBatch.length_ownLengths (config : StoreConfig) (batches : List LogBatch) :
    batches.length = (ownLengths config batches).length +
      batches.countP (·.header.batchType ≠ config.batchType) := by
  rw [ownLengths, List.length_map, ← List.countP_eq_length_filter,
    List.length_eq_countP_add_countP (fun batch => batch.header.batchType = config.batchType)]
  simp

namespace Store

variable {store : Store}

theorem ownLengths_of_readItems {path : Path} {items : List (Except BatchError Batch)}
    {batches : List LogBatch} (read : items.mapM (store.readItem path) = .ok batches) :
    LogBatch.ownLengths store.config batches =
      ((BatchCursor.batches items).filter fun batch =>
        batch.header.batchType = store.config.batchType).map Batch.recordCount := by
  induction items generalizing batches with
  | nil =>
    cases read
    rfl
  | cons item items ih =>
    obtain ⟨logged, rest, first, later, rfl⟩ := mapM_cons_eq_ok_iff.mp read
    cases item with
    | error e => cases first
    | ok batch =>
      have found : store.readBatch path batch = .ok logged := first
      obtain ⟨header, counted⟩ := records_length_of_read found
      have rest := ih later
      rw [LogBatch.ownLengths] at rest ⊢
      by_cases own : batch.header.batchType = store.config.batchType
      · simp [header, own, counted own, rest]
      · simp [header, own, rest]

theorem ownLengths_of_readSegment {tree : FileTree} {segment : Segment} {batches : List LogBatch}
    (read : store.readSegment tree segment = .ok batches) :
    LogBatch.ownLengths store.config batches =
      (store.ownBatches tree segment).map Batch.recordCount := by
  rw [readSegment_eq] at read
  obtain ⟨items, found, read⟩ := bind_eq_ok_iff.mp read
  rw [ownBatches, mapError_eq_ok_iff.mp found]
  exact ownLengths_of_readItems read

theorem ownLengths_of_readLog {tree : FileTree} {log : StoreLog}
    (read : store.readLog tree = .ok log) :
    LogBatch.ownLengths store.config log.segments.flatten =
      (store.replayedBatches tree).map (·.2.recordCount) := by
  obtain ⟨-, segments⟩ := readLog_eq_ok_iff.mp read
  have each := map_of_mapM (fun _ _ => ownLengths_of_readSegment) segments
  rw [LogBatch.ownLengths, List.filter_flatten, List.map_flatten, List.map_map, replayedBatches,
    List.map_flatMap, List.flatMap_def]
  simp only [List.map_map]
  exact congrArg List.flatten each

end Store

/-! ## Live keys -/

namespace StoreLog

/-- One for each applied record with a payload. -/
def writtenKeys (config : StoreConfig) (log : StoreLog) : List StoredKey :=
  ((log.applied config).filter (!·.isAbsent)).map (·.entry.key)

theorem mem_writtenKeys {config : StoreConfig} {log : StoreLog} {key : StoredKey} :
    key ∈ log.writtenKeys config ↔
      ∃ r ∈ log.applied config, ∃ payload, r.Writes key payload := by
  simp only [writtenKeys, List.mem_map, List.mem_filter, LoggedRecord.writes_iff,
    LoggedRecord.payload?, LoggedRecord.isAbsent, ← Option.isSome_iff_exists]
  constructor
  · rintro ⟨r, ⟨member, present⟩, rfl⟩
    exact ⟨r, member, by simpa using present⟩
  · rintro ⟨r, member, present⟩
    split at present
    · rename_i same
      exact ⟨r, ⟨member, by simpa using present⟩, same⟩
    · cases present

theorem length_writtenKeys (config : StoreConfig) (log : StoreLog) :
    (log.applied config).length =
      (log.writtenKeys config).length + (log.applied config).countP LoggedRecord.isAbsent := by
  rw [writtenKeys, List.length_map, ← List.countP_eq_length_filter,
    List.length_eq_countP_add_countP LoggedRecord.isAbsent, Nat.add_comm]
  simp

end StoreLog

theorem Store.size_rebuild (store : Store) (log : StoreLog) :
    (store.rebuild log).size = (log.writtenKeys store.config).dedup.length := by
  have coherent := State.Coherent.rebuild store log
  have same : ((store.rebuild log).entries.map Prod.fst).Perm
      (log.writtenKeys store.config).dedup := by
    rw [List.perm_ext_iff_of_nodup (SortedMap.nodup_keys coherent.sorted) (List.nodup_dedup _)]
    intro key
    rw [mem_keys_rebuild_iff, List.mem_dedup, StoreLog.mem_writtenKeys]
  rw [State.size, ← same.length_eq, List.length_map]

/-! ## The balance -/

namespace StoreLog

variable (config : StoreConfig) (log : StoreLog)

theorem length_applied :
    (log.applied config).length = log.snapshotRecords.length +
      (log.records config).countP (!log.isSkipped config ·) := by
  rw [applied, List.length_append, List.countP_eq_length_filter]

theorem length_records :
    (log.records config).length =
      (log.records config).countP (!log.isSkipped config ·) +
        (log.records config).countP (log.isSkipped config) := by
  rw [List.length_eq_countP_add_countP (log.isSkipped config), Nat.add_comm]
  simp

theorem isSome_of_isSkipped {config : StoreConfig} {log : StoreLog} {r : LoggedRecord}
    (skipped : log.isSkipped config r = true) :
    config.skipSnapshotCovered = true ∧ log.snapshot.isSome := by
  obtain ⟨asked, covered⟩ := (Bool.and_eq_true _ _).mp skipped
  exact ⟨asked, Option.isSome_of_any covered⟩

end StoreLog

theorem Store.isSome_snapshot_of_read {store : Store} {tree : FileTree} {log : StoreLog}
    (read : store.readLog tree = .ok log) (held : log.snapshot.isSome) :
    store.partition.snapshot.isSome := by
  obtain ⟨snapshot, -⟩ := readLog_eq_ok_iff.mp read
  unfold readSnapshotLog at snapshot
  cases found : store.partition.snapshot with
  | none =>
    rw [found] at snapshot
    rw [← Except.ok.inj snapshot] at held
    cases held
  | some path => rfl

/-- Every record that is read is applied or skipped, and there are as many as the headers of the
store's batches tell; every applied record without a payload is counted. So the live keys can be no
more than the other applied records, and are as many where each of these has a key of its own. -/
theorem decode_counters {store : Store} {tree : FileTree} {state : State}
    (decoded : store.decode tree = .ok state) :
    let stats := state.stats
    stats.recordsRead = stats.recordsApplied + stats.recordsSkipped ∧
      stats.recordsRead = ((store.replayedBatches tree).map (·.2.recordCount)).sum ∧
      (stats.recordsSkipped ≠ 0 →
        store.config.skipSnapshotCovered = true ∧ store.partition.snapshot.isSome) ∧
      stats.segmentsRead = store.partition.segments.length ∧
      stats.batchesSkipped ≤ stats.batchesRead ∧
      stats.batchesRead - stats.batchesSkipped = (store.replayedBatches tree).length ∧
      stats.absentPayloads ≤ stats.snapshotRecords + stats.recordsApplied ∧
      state.size ≤ stats.snapshotRecords + stats.recordsApplied - stats.absentPayloads ∧
      ∃ log, store.readLog tree = .ok log ∧
        (log.applied store.config).length = stats.snapshotRecords + stats.recordsApplied ∧
        (state.size = stats.snapshotRecords + stats.recordsApplied - stats.absentPayloads ↔
          (log.writtenKeys store.config).Nodup) := by
  obtain ⟨-, log, read, rfl⟩ := Store.decode_eq_ok_iff.mp decoded
  have lengths := Store.ownLengths_of_readLog read
  have framed := LogBatch.length_ownLengths store.config log.segments.flatten
  have sum := LogBatch.sum_ownLengths store.config log.segments.flatten
  rw [lengths, List.length_map] at framed
  rw [lengths] at sum
  have written := log.length_writtenKeys store.config
  have applied := log.length_applied store.config
  have segments := length_of_mapM (Store.readLog_eq_ok_iff.mp read).2
  have live : (log.writtenKeys store.config).dedup.length ≤ (log.writtenKeys store.config).length :=
    (List.dedup_sublist _).length_le
  have distinct : (log.writtenKeys store.config).dedup.length =
      (log.writtenKeys store.config).length ↔ (log.writtenKeys store.config).Nodup := by
    rw [← List.dedup_eq_self]
    exact ⟨(List.dedup_sublist _).eq_of_length, congrArg List.length⟩
  simp only [Store.stats_rebuild, Store.size_rebuild]
  refine ⟨log.length_records store.config, sum.symm, fun skipped => ?_, segments, by omega,
    by omega, by omega, by omega, log, read, applied, ?_⟩
  · obtain ⟨r, -, skips⟩ := List.countP_pos_iff.mp (Nat.pos_of_ne_zero skipped)
    obtain ⟨asked, held⟩ := StoreLog.isSome_of_isSkipped skips
    exact ⟨asked, Store.isSome_snapshot_of_read read held⟩
  · rw [← distinct]
    omega

namespace Retention

set_option maxRecDepth 20000 in
theorem decode_cut :
    (cut.decode cutTree).toOption.map (fun state => (state.stats, state.size)) =
      some ({
        snapshotLastOffset := some 1, snapshotRecords := 1, segmentsRead := 1, batchesRead := 1
        recordsRead := 3, recordsSkipped := 1, recordsApplied := 2, absentPayloads := 1 }, 2) := by
  decide +kernel

end Retention

theorem decode_counters_retention :
    ∃ state, Retention.cut.decode Retention.cutTree = .ok state ∧
      state.stats.recordsSkipped = 1 ∧ Retention.cut.partition.snapshot.isSome ∧
      ((Retention.cut.replayedBatches Retention.cutTree).map (·.2.recordCount)).sum = 3 ∧
      (Retention.cut.replayedBatches Retention.cutTree).length = 1 ∧
      ∃ log, Retention.cut.readLog Retention.cutTree = .ok log ∧
        (log.applied Retention.cut.config).length = 3 ∧
        (log.writtenKeys Retention.cut.config).Nodup := by
  obtain ⟨state, decoded, facts⟩ := exists_ok_of_map_eq_some Retention.decode_cut
  obtain ⟨stats, size⟩ := Prod.mk.inj facts
  have counters := decode_counters decoded
  rw [stats, size] at counters
  obtain ⟨-, sum, covered, -, -, own, -, -, log, read, applied, distinct⟩ := counters
  exact ⟨state, decoded, congrArg ReplayStats.recordsSkipped stats, (covered (by decide)).2,
    sum.symm, own.symm, log, read, applied, distinct.mp rfl⟩

end PartitionLog.KeyValue
