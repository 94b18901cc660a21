import PartitionLog.KeyValue.Fixture
import PartitionLog.Partition.Fixture
import PartitionLog.Proofs.Batch.Building
import PartitionLog.Proofs.KeyValue.Replay

/-!
# Foreign batches

A batch of another type moves two counters of a replay and nothing else (`State.pass`), whatever its
records are. Every step of a replay commutes with that, so batches that are put in anywhere between
the others add up at the end: `decode_interspersed`.
-/
namespace PartitionLog.KeyValue

/-- The bytes of a segment, and the same with so many foreign batches put in where a batch starts or
the data end. -/
inductive Interspersed (config : StoreConfig) : Bytes → Bytes → Nat → Prop
  | none {held : Bytes} : Interspersed config held held 0
  | own {batch : Batch} {held held' : Bytes} {count : Nat}
      (intact : Batch.Intact config.reader batch) (behind : Interspersed config held held' count) :
      Interspersed config (batch.write ++ held) (batch.write ++ held') count
  | foreign {batch : Batch} {held held' : Bytes} {count : Nat}
      (intact : Batch.Intact config.reader batch)
      (other : batch.header.batchType ≠ config.batchType)
      (behind : Interspersed config held held' count) :
      Interspersed config held (batch.write ++ held') (count + 1)

namespace State

def pass (count : Nat) (state : State) : State :=
  { state with
    stats.batchesRead := state.stats.batchesRead + count
    stats.batchesSkipped := state.stats.batchesSkipped + count }

theorem pass_pass (m n : Nat) (state : State) : (state.pass m).pass n = state.pass (m + n) := by
  simp only [pass, Nat.add_assoc]

theorem independent_pass (count : Nat) : ReplayStats.Independent fun stats => { stats with
    batchesRead := stats.batchesRead + count
    batchesSkipped := stats.batchesSkipped + count } :=
  ⟨fun _ => rfl, fun _ => rfl, fun _ => rfl, fun _ => rfl⟩

end State

namespace Store

/-! ## Steps of a replay -/

theorem replayLogged_pass (store : Store) (count : Nat) (state : State) (r : LoggedRecord) :
    store.replayLogged (state.pass count) r = (store.replayLogged state r).pass count :=
  replayEntry_mapStats (State.independent_pass count) state r.entry

theorem replayLogBatch_pass (store : Store) (count : Nat) (state : State) (batch : LogBatch) :
    store.replayLogBatch (state.pass count) batch =
      (store.replayLogBatch state batch).pass count := by
  let counted : State := { state with stats.batchesRead := state.stats.batchesRead + 1 }
  have read : { state.pass count with
      stats.batchesRead := (state.pass count).stats.batchesRead + 1 } = counted.pass count := by
    simp only [State.pass, counted, Nat.add_right_comm]
  unfold replayLogBatch
  dsimp only
  rw [read]
  split
  · simp only [State.pass, Nat.add_right_comm]
  · exact List.foldl_hom (State.pass count) (store.replayLogged_pass count)

theorem foldl_replayLogBatch_pass (store : Store) (count : Nat) (state : State)
    (batches : List LogBatch) :
    batches.foldl store.replayLogBatch (state.pass count) =
      (batches.foldl store.replayLogBatch state).pass count :=
  List.foldl_hom (State.pass count) (store.replayLogBatch_pass count)

theorem replayLogSegment_pass (store : Store) (count : Nat) (state : State)
    (batches : List LogBatch) :
    store.replayLogSegment (state.pass count) batches =
      (store.replayLogSegment state batches).pass count :=
  store.foldl_replayLogBatch_pass count
    { state with stats.segmentsRead := state.stats.segmentsRead + 1 } batches

theorem replayLogBatch_foreign {store : Store} {batch : LogBatch}
    (other : batch.header.batchType ≠ store.config.batchType) (state : State) :
    store.replayLogBatch state batch = state.pass 1 := by
  rw [replayLogBatch, if_pos other]
  rfl

/-! ## Segments -/

variable {store : Store}

theorem reads_interspersed {path : Path} {held held' : Bytes} {count index position : Nat}
    {items : List (Except BatchError Batch)} {batches : List LogBatch}
    (spread : Interspersed store.config held held' count)
    (reads : BatchCursor.Reads store.config.reader none index position held items)
    (read : items.mapM (store.readItem path) = .ok batches) (index' position' : Nat) :
    ∃ items' batches',
      BatchCursor.Reads store.config.reader none index' position' held' items' ∧
      items'.mapM (store.readItem path) = .ok batches' ∧
      ∀ state, batches'.foldl store.replayLogBatch state =
        (batches.foldl store.replayLogBatch state).pass count := by
  -- Behind a batch that was put in, the rest is read at other places than before.
  induction spread generalizing index position items batches index' position' with
  | none =>
    obtain ⟨items', reads', same⟩ :=
      reads.relocate (error_notMem_of_read read) index' position'
    exact ⟨items', batches, reads', (mapM_readItem_congr same store path).trans read, fun _ => rfl⟩
  | @own batch held held' count intact behind ih =>
    obtain ⟨rest, rfl, following⟩ := reads.behind_intact intact
    obtain ⟨logBatch, logBatches, first, later, rfl⟩ := mapM_cons_eq_ok_iff.mp read
    obtain ⟨items', batches', reads', read', replayed⟩ :=
      ih following later (index' + 1) (position' + batch.write.length)
    refine ⟨_, logBatch :: batches', .of_intact intact reads', ?_, fun state => ?_⟩
    · exact mapM_cons_eq_ok_iff.mpr ⟨_, _, first, read', rfl⟩
    · rw [List.foldl_cons, List.foldl_cons, replayed]
  | @foreign batch held held' count intact other behind ih =>
    obtain ⟨items', batches', reads', read', replayed⟩ :=
      ih reads read (index' + 1) (position' + batch.write.length)
    refine ⟨_, ⟨batch.header, []⟩ :: batches', .of_intact intact reads', ?_, fun state => ?_⟩
    · exact mapM_cons_eq_ok_iff.mpr ⟨_, _, if_pos other, read', rfl⟩
    · rw [List.foldl_cons, replayLogBatch_foreign other, replayed, foldl_replayLogBatch_pass,
        State.pass_pass, Nat.add_comm]

/-- The same files, with so many foreign batches put into each segment. -/
structure Spreads (store : Store) (tree tree' : FileTree) (added : Segment → Nat) : Prop where
  snapshot : ∀ path, store.partition.snapshot = some path →
    tree'.fileContents path = tree.fileContents path
  segments : ∀ segment ∈ store.partition.segments, ∃ held held',
    tree.fileContents segment.path = .ok held ∧ tree'.fileContents segment.path = .ok held' ∧
      Interspersed store.config held held' (added segment)

variable {tree tree' : FileTree} {added : Segment → Nat}

theorem readSegment_interspersed {segment : Segment} {held held' : Bytes} {count : Nat}
    {batches : List LogBatch} (contents : tree.fileContents segment.path = .ok held)
    (contents' : tree'.fileContents segment.path = .ok held')
    (spread : Interspersed store.config held held' count)
    (read : store.readSegment tree segment = .ok batches) :
    ∃ batches', store.readSegment tree' segment = .ok batches' ∧
      ∀ state, store.replayLogSegment state batches' =
        (store.replayLogSegment state batches).pass count := by
  have reads := BatchCursor.reads_ofBytes store.config.reader held
  rw [readSegment_of_contents contents reads] at read
  obtain ⟨items', batches', reads', read', replayed⟩ := reads_interspersed spread reads read 0 0
  refine ⟨batches', (readSegment_of_contents contents' reads').trans read', fun state => ?_⟩
  exact replayed { state with stats.segmentsRead := state.stats.segmentsRead + 1 }

theorem readSegments_interspersed {segments : List Segment} {logs : List (List LogBatch)}
    (spreads : ∀ segment ∈ segments, ∃ held held',
      tree.fileContents segment.path = .ok held ∧ tree'.fileContents segment.path = .ok held' ∧
        Interspersed store.config held held' (added segment))
    (read : segments.mapM (store.readSegment tree) = .ok logs) :
    ∃ logs', segments.mapM (store.readSegment tree') = .ok logs' ∧
      ∀ state, logs'.foldl store.replayLogSegment state =
        (logs.foldl store.replayLogSegment state).pass (segments.map added).sum := by
  induction segments generalizing logs with
  | nil => exact ⟨logs, read, fun _ => rfl⟩
  | cons segment segments ih =>
    obtain ⟨batches, later, first, rest, rfl⟩ := mapM_cons_eq_ok_iff.mp read
    obtain ⟨held, held', contents, contents', spread⟩ := spreads segment List.mem_cons_self
    obtain ⟨batches', first', replayed⟩ :=
      readSegment_interspersed contents contents' spread first
    obtain ⟨later', rest', replayed'⟩ :=
      ih (fun other member => spreads other (List.mem_cons_of_mem _ member)) rest
    refine ⟨batches' :: later', mapM_cons_eq_ok_iff.mpr ⟨_, _, first', rest', rfl⟩, fun state => ?_⟩
    have moved : later.foldl store.replayLogSegment
          ((store.replayLogSegment state batches).pass (added segment)) =
        (later.foldl store.replayLogSegment (store.replayLogSegment state batches)).pass
          (added segment) :=
      List.foldl_hom (State.pass _) (store.replayLogSegment_pass _)
    rw [List.foldl_cons, List.foldl_cons, replayed, replayed', moved, State.pass_pass,
      List.map_cons, List.sum_cons]

end Store

theorem decode_interspersed {store : Store} {tree tree' : FileTree} {added : Segment → Nat}
    {state : State} (decoded : store.decode tree = .ok state)
    (spreads : store.Spreads tree tree' added) :
    store.decode tree' = .ok (state.pass (store.partition.segments.map added).sum) := by
  obtain ⟨valid, log, read, rfl⟩ := Store.decode_eq_ok_iff.mp decoded
  obtain ⟨snapshot, segments⟩ := Store.readLog_eq_ok_iff.mp read
  obtain ⟨logs', segments', replayed⟩ := Store.readSegments_interspersed spreads.segments segments
  refine Store.decode_eq_ok_iff.mpr ⟨valid, ⟨log.snapshot, logs'⟩, ?_, ?_⟩
  · rw [← Store.readSnapshotLog_congr (Option.map_congr spreads.snapshot)] at snapshot
    exact Store.readLog_eq_ok_iff.mpr ⟨snapshot, segments'⟩
  · exact (replayed (store.bootstrapLog log.snapshot)).symm

/-! ## Batches without readable records, before and behind a write -/

namespace Mixed

def own : Batch := batchOfWrites 0 0 [.put (.consensus .lastAppliedOffset 1) (Wire.i64 5)]

def foreign : Batch :=
  let header : BatchHeader := { batchSize := 63, baseOffset := 1, batchType := 1, recordCount := 9 }
  let checked := { header with crc := header.computedCrc [255, 255] }
  { header := { checked with headerCrc := checked.computedHeaderCrc }, records := [255, 255] }

def tail : Bytes := own.write.take 70

def store : Store where
  partition := ⟨⟨"redpanda", "kvstore", 0⟩, 0, ⟨"/"⟩, [⟨⟨"/0-1-v1.log"⟩⟩], none⟩

def tree (segment : Bytes) : FileTree :=
  { mount := ⟨"/"⟩, root := .ok (.dir [("0-1-v1.log", .file segment)]) }

set_option maxRecDepth 20000 in
theorem decode_own :
    (store.decode (tree (own.write ++ tail))).toOption.map (fun state =>
      (state.items.map Item.offset, state.stats.batchesRead, state.stats.batchesSkipped)) =
      some ([0], 1, 0) := by
  decide +kernel

theorem intact_own : Batch.Intact store.config.reader own :=
  BatchDraft.Fits.intact ⟨by decide +kernel, by decide +kernel⟩

set_option maxRecDepth 20000 in
theorem intact_foreign : Batch.Intact store.config.reader foreign :=
  ⟨by decide +kernel, by decide +kernel, by decide +kernel, by decide +kernel⟩

end Mixed

theorem decode_interspersed_torn :
    (Mixed.foreign.decodeRecords {}).toOption = none ∧
      ∃ state,
        Mixed.store.decode (Mixed.tree (Mixed.own.write ++ Mixed.tail)) = .ok state ∧
        state.items.map Item.offset = [0] ∧ state.stats.batchesRead = 1 ∧
        Mixed.store.decode (Mixed.tree (Mixed.foreign.write ++ (Mixed.own.write ++
          (Mixed.foreign.write ++ Mixed.tail)))) = .ok (state.pass 2) := by
  obtain ⟨state, decoded, facts⟩ := exists_ok_of_map_eq_some Mixed.decode_own
  obtain ⟨offsets, facts⟩ := Prod.mk.inj facts
  obtain ⟨read, -⟩ := Prod.mk.inj facts
  have other : Mixed.foreign.header.batchType ≠ Mixed.store.config.batchType := by decide
  have spread : Interspersed Mixed.store.config (Mixed.own.write ++ Mixed.tail)
      (Mixed.foreign.write ++ (Mixed.own.write ++ (Mixed.foreign.write ++ Mixed.tail))) 2 :=
    .foreign Mixed.intact_foreign other
      (.own Mixed.intact_own (.foreign Mixed.intact_foreign other .none))
  have spreads : Mixed.store.Spreads (Mixed.tree (Mixed.own.write ++ Mixed.tail))
      (Mixed.tree (Mixed.foreign.write ++ (Mixed.own.write ++
        (Mixed.foreign.write ++ Mixed.tail)))) (fun _ => 2) := by
    refine ⟨nofun, ?_⟩
    intro segment member
    obtain rfl := List.mem_singleton.mp member
    exact ⟨_, _, rfl, rfl, spread⟩
  exact ⟨by decide +kernel, state, decoded, offsets, read, decode_interspersed decoded spreads⟩

end PartitionLog.KeyValue
