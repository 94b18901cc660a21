import PartitionLog.Proofs.KeyValue.LastWrite

/-!
# Replaying entries

A replay sees of a log the entries of the store's batches, in their order. How they are spread over
batches and segments shows in the counters of those alone: `unframed_rebuild`. A change to counters
that entries neither move nor read, before a replay, is the same change after it
(`Store.replayEntry_mapStats`).
-/
namespace PartitionLog.KeyValue

def LogBatch.entries (config : StoreConfig) (batch : LogBatch) : List Entry :=
  (batch.storeRecords config).map LoggedRecord.entry

theorem LogBatch.entries_of_own {config : StoreConfig} {batch : LogBatch}
    (own : batch.header.batchType = config.batchType) :
    batch.entries config = batch.records.map LoggedRecord.entry := by
  rw [entries, storeRecords, if_pos own]

theorem LogBatch.entries_of_foreign {config : StoreConfig} {batch : LogBatch}
    (other : batch.header.batchType ≠ config.batchType) : batch.entries config = [] := by
  rw [entries, storeRecords, if_neg other]
  rfl

/-! ## Counters that entries leave alone -/

namespace ReplayStats

def addAbsent (stats : ReplayStats) : ReplayStats :=
  { stats with absentPayloads := stats.absentPayloads + 1 }

def addSkipped (stats : ReplayStats) : ReplayStats :=
  { stats with
    recordsRead := stats.recordsRead + 1
    recordsSkipped := stats.recordsSkipped + 1 }

def addApplied (stats : ReplayStats) : ReplayStats :=
  { stats with
    recordsRead := stats.recordsRead + 1
    recordsApplied := stats.recordsApplied + 1 }

/-- A change that commutes with what an entry counts, and keeps what decides if it is covered. -/
structure Independent (change : ReplayStats → ReplayStats) : Prop where
  absent : ∀ stats, change stats.addAbsent = (change stats).addAbsent
  skipped : ∀ stats, change stats.addSkipped = (change stats).addSkipped
  applied : ∀ stats, change stats.addApplied = (change stats).addApplied
  watermark : ∀ stats, (change stats).snapshotLastOffset = stats.snapshotLastOffset

end ReplayStats

namespace State

def mapStats (change : ReplayStats → ReplayStats) (state : State) : State :=
  { state with stats := change state.stats }

theorem apply_mapStats {change : ReplayStats → ReplayStats}
    (absent : ∀ stats, change stats.addAbsent = (change stats).addAbsent)
    (readConfig : Reader Json) (state : State) (entry : Entry) :
    State.apply readConfig (state.mapStats change) entry =
      (State.apply readConfig state entry).mapStats change := by
  unfold State.apply
  cases entry.payload with
  | none => exact congrArg (State.mk state.entries) (absent state.stats).symm
  | some payload => rfl

/-- Without the counters of segments and batches. -/
def unframed (state : State) : State :=
  { state with stats.segmentsRead := 0, stats.batchesRead := 0, stats.batchesSkipped := 0 }

end State

/-! ## Entries -/

namespace Store

variable {store : Store} {state : State} {entry : Entry}

def replayEntry (store : Store) (state : State) (entry : Entry) : State :=
  let stats := { state.stats with recordsRead := state.stats.recordsRead + 1 }
  if store.isCovered stats.snapshotLastOffset entry.offset then
    { state with stats := { stats with recordsSkipped := stats.recordsSkipped + 1 } }
  else
    State.apply store.readConfig
      { state with stats := { stats with recordsApplied := stats.recordsApplied + 1 } } entry

theorem replayEntry_of_covered
    (covered : store.isCovered state.stats.snapshotLastOffset entry.offset = true) :
    store.replayEntry state entry = state.mapStats ReplayStats.addSkipped :=
  if_pos covered

theorem replayEntry_of_uncovered
    (uncovered : ¬ store.isCovered state.stats.snapshotLastOffset entry.offset = true) :
    store.replayEntry state entry =
      State.apply store.readConfig (state.mapStats ReplayStats.addApplied) entry :=
  if_neg uncovered

theorem replayEntry_mapStats {change : ReplayStats → ReplayStats}
    (independent : ReplayStats.Independent change) (state : State) (entry : Entry) :
    store.replayEntry (state.mapStats change) entry =
      (store.replayEntry state entry).mapStats change := by
  have watermark : (state.mapStats change).stats.snapshotLastOffset =
      state.stats.snapshotLastOffset := independent.watermark state.stats
  -- With the watermark unchanged, both sides take the same branch.
  by_cases covered : store.isCovered state.stats.snapshotLastOffset entry.offset = true
  · rw [replayEntry_of_covered covered, replayEntry_of_covered (watermark ▸ covered)]
    exact congrArg (State.mk state.entries) (independent.skipped state.stats).symm
  · have counted : (state.mapStats change).mapStats ReplayStats.addApplied =
        (state.mapStats ReplayStats.addApplied).mapStats change :=
      congrArg (State.mk state.entries) (independent.applied state.stats).symm
    rw [replayEntry_of_uncovered covered, replayEntry_of_uncovered (watermark ▸ covered), counted,
      State.apply_mapStats independent.absent]

theorem independent_unframed : ReplayStats.Independent fun stats =>
    { stats with segmentsRead := 0, batchesRead := 0, batchesSkipped := 0 } :=
  ⟨fun _ => rfl, fun _ => rfl, fun _ => rfl, fun _ => rfl⟩

theorem replayEntry_unframed (state : State) (entry : Entry) :
    store.replayEntry state.unframed entry = (store.replayEntry state entry).unframed :=
  replayEntry_mapStats independent_unframed state entry

theorem foldl_replayLogged (records : List LoggedRecord) (state : State) :
    records.foldl store.replayLogged state =
      (records.map LoggedRecord.entry).foldl store.replayEntry state := by
  rw [List.foldl_map]
  rfl

/-! ## Batches and segments -/

theorem unframed_foldl {α : Type} {step : State → α → State} {entries : α → List Entry}
    (each : ∀ state x, (step state x).unframed =
      (entries x).foldl store.replayEntry state.unframed) (xs : List α) (state : State) :
    (xs.foldl step state).unframed =
      (xs.flatMap entries).foldl store.replayEntry state.unframed := by
  induction xs generalizing state with
  | nil => rfl
  | cons x xs ih => rw [List.foldl_cons, ih, each, List.flatMap_cons, List.foldl_append]

theorem unframed_replayLogBatch (state : State) (batch : LogBatch) :
    (store.replayLogBatch state batch).unframed =
      (batch.entries store.config).foldl store.replayEntry state.unframed := by
  by_cases own : batch.header.batchType = store.config.batchType
  · rw [replayLogBatch, if_neg (not_not_intro own), LogBatch.entries_of_own own,
      foldl_replayLogged, ← List.foldl_hom State.unframed replayEntry_unframed]
    rfl
  · rw [replayLogBatch, if_pos own, LogBatch.entries_of_foreign own]
    rfl

theorem unframed_replayLogSegment (state : State) (batches : List LogBatch) :
    (store.replayLogSegment state batches).unframed =
      (batches.flatMap (LogBatch.entries store.config)).foldl store.replayEntry state.unframed :=
  unframed_foldl unframed_replayLogBatch batches
    { state with stats.segmentsRead := state.stats.segmentsRead + 1 }

theorem unframed_rebuild (log : StoreLog) :
    (store.rebuild log).unframed =
      (log.segments.flatMap (·.flatMap (LogBatch.entries store.config))).foldl store.replayEntry
        (store.bootstrapLog log.snapshot).unframed :=
  unframed_foldl unframed_replayLogSegment log.segments (store.bootstrapLog log.snapshot)

end Store
end PartitionLog.KeyValue
