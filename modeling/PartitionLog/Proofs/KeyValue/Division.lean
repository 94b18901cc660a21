import PartitionLog.Partition.Fixture
import PartitionLog.Proofs.KeyValue.Writes
import PartitionLog.Proofs.Partition.ReplayOrder

/-!
# Where batches and segments end

Consecutive writes may be cut into batches, and these may be spread over segments, in any way: a
rebuild is the same but for the counters of segments and batches (`decode_divided`).
-/
namespace PartitionLog.KeyValue

/-- Each batch starts at the offset where the one before it ended. -/
def batchesFrom (timestamp : Int64) : Int64 → List (List Write) → List Batch
  | _, [] => []
  | offset, writes :: parts =>
    batchOfWrites offset timestamp writes ::
      batchesFrom timestamp (offset + Int64.ofNat writes.length) parts

def segmentsFrom (timestamp : Int64) : Int64 → List (List (List Write)) → List (List Batch)
  | _, [] => []
  | offset, parts :: segments =>
    batchesFrom timestamp offset parts ::
      segmentsFrom timestamp (offset + Int64.ofNat parts.flatten.length) segments

/-- The segments of a partition hold the writes: `parts` are the batches of each segment, in the
order of the names, which have no ties. -/
structure Division (reader : ReaderConfig) (tree : FileTree) (partition : Partition)
    (timestamp offset : Int64) (writes : List Write) where
  parts : List (List (List Write))
  whole : parts.flatten.flatten = writes
  fits : ∀ part ∈ parts.flatten, (draftOfWrites offset timestamp part).Fits reader
  directory : List (RawText × FileNode)
  opened : partition = .ofEntries partition.ntp partition.revision partition.path directory
  named : List (SegmentName × String)
  order : Partition.ReplayOrder (Partition.fileNames directory) named
  strict : named.Pairwise fun a b => ¬ b.1.Precedes a.1
  contents : (named.map fun segment => tree.fileContents (partition.path.join segment.2)) =
    (segmentsFrom timestamp offset parts).map fun batches => .ok (Segment.write batches)

namespace Store

variable {store : Store} {tree : FileTree} {timestamp : Int64}

theorem fits_draftOfWrites {reader : ReaderConfig} {offset : Int64} {part : List Write}
    (fits : (draftOfWrites offset timestamp part).Fits reader) (offset' : Int64) :
    (draftOfWrites offset' timestamp part).Fits reader :=
  ⟨fits.within, fits.representable⟩

theorem readBatches_from (path : Path) {parts : List (List Write)} {offset : Int64}
    (keyed : ∀ part ∈ parts, ∀ w ∈ part, w.key ≠ [])
    (fits : ∀ part ∈ parts, (draftOfWrites offset timestamp part).Fits store.config.reader) :
    ∃ batches, (batchesFrom timestamp offset parts).mapM (store.readBatch path) = .ok batches ∧
      batches.flatMap (LogBatch.entries store.config) =
        store.ownEntries (Write.entriesFrom timestamp offset parts.flatten) := by
  induction parts generalizing offset with
  | nil =>
    refine ⟨[], rfl, ?_⟩
    unfold ownEntries
    split <;> rfl
  | cons part parts ih =>
    obtain ⟨batch, first, entries⟩ := store.readBatch_batchOfWrites path
      (keyed part List.mem_cons_self) (fits part List.mem_cons_self)
    obtain ⟨batches, rest, entries'⟩ := ih
      (fun later member => keyed later (List.mem_cons_of_mem part member))
      (fun later member => fits_draftOfWrites (fits later (List.mem_cons_of_mem part member))
        (offset + Int64.ofNat part.length))
    refine ⟨batch :: batches, mapM_cons_eq_ok_iff.mpr ⟨batch, batches, first, rest, rfl⟩, ?_⟩
    rw [List.flatMap_cons, entries, entries', List.flatten_cons, Write.entriesFrom_append,
      ownEntries_append]

theorem intact_batchesFrom {reader : ReaderConfig} {parts : List (List Write)} {offset : Int64}
    (fits : ∀ part ∈ parts, (draftOfWrites offset timestamp part).Fits reader) :
    ∀ batch ∈ batchesFrom timestamp offset parts, Batch.Intact reader batch := by
  induction parts generalizing offset with
  | nil => exact fun _ member => absurd member List.not_mem_nil
  | cons part parts ih =>
    intro batch member
    cases List.mem_cons.mp member with
    | inl first => exact first ▸ (fits part List.mem_cons_self).intact
    | inr rest =>
      refine ih (fun later member => ?_) batch rest
      exact fits_draftOfWrites (fits later (List.mem_cons_of_mem part member)) _

theorem readSegment_from {segment : Segment} {parts : List (List Write)} {offset : Int64}
    (keyed : ∀ part ∈ parts, ∀ w ∈ part, w.key ≠ [])
    (fits : ∀ part ∈ parts, (draftOfWrites offset timestamp part).Fits store.config.reader)
    (contents : tree.fileContents segment.path =
      .ok (Segment.write (batchesFrom timestamp offset parts))) :
    ∃ batches, store.readSegment tree segment = .ok batches ∧
      batches.flatMap (LogBatch.entries store.config) =
        store.ownEntries (Write.entriesFrom timestamp offset parts.flatten) := by
  rw [Segment.write, ← List.append_nil (List.flatMap _ _)] at contents
  rw [readSegment_of_written (.short (by decide)) (intact_batchesFrom fits) contents]
  exact readBatches_from segment.path keyed fits

theorem readSegments_from {segments : List Segment} {parts : List (List (List Write))}
    {offset : Int64} (keyed : ∀ part ∈ parts.flatten, ∀ w ∈ part, w.key ≠ [])
    (fits : ∀ part ∈ parts.flatten,
      (draftOfWrites offset timestamp part).Fits store.config.reader)
    (contents : (segments.map fun segment => tree.fileContents segment.path) =
      (segmentsFrom timestamp offset parts).map fun batches => .ok (Segment.write batches)) :
    ∃ logs, segments.mapM (store.readSegment tree) = .ok logs ∧
      logs.flatMap (·.flatMap (LogBatch.entries store.config)) =
        store.ownEntries (Write.entriesFrom timestamp offset parts.flatten.flatten) := by
  induction parts generalizing segments offset with
  | nil =>
    obtain rfl := List.map_eq_nil_iff.mp contents
    exact ⟨[], rfl, by unfold ownEntries; split <;> rfl⟩
  | cons part parts ih =>
    obtain ⟨segment, segments, rfl, here, there⟩ := List.map_eq_cons_iff.mp contents
    rw [List.flatten_cons] at keyed fits
    obtain ⟨batches, first, entries⟩ := readSegment_from
      (fun batch member => keyed batch (List.mem_append_left _ member))
      (fun batch member => fits batch (List.mem_append_left _ member)) here
    obtain ⟨logs, rest, entries'⟩ := ih
      (fun batch member => keyed batch (List.mem_append_right _ member))
      (fun batch member => fits_draftOfWrites (fits batch (List.mem_append_right _ member)) _)
      there
    refine ⟨batches :: logs, mapM_cons_eq_ok_iff.mpr ⟨batches, logs, first, rest, rfl⟩, ?_⟩
    rw [List.flatMap_cons, entries, entries', List.flatten_cons, List.flatten_append,
      Write.entriesFrom_append, ownEntries_append]

theorem map_unframed_decode (store : Store) {offset : Int64} {writes : List Write}
    (keyed : ∀ w ∈ writes, w.key ≠ [])
    (division : Division store.config.reader tree store.partition timestamp offset writes) :
    (store.decode tree).map State.unframed =
      (store.config.validate.mapError .config >>= fun _ =>
        (store.bootstrap tree).map fun state =>
          (store.ownEntries (Write.entriesFrom timestamp offset writes)).foldl store.replayEntry
            state.unframed) := by
  obtain ⟨parts, rfl, fits, directory, opened, named, order, strict, contents⟩ := division
  have segments : store.partition.segments =
      named.map fun segment => ⟨store.partition.path.join segment.2⟩ := by
    rw [opened, Partition.ofEntries, order.segmentNames_eq strict, List.map_map]
    rfl
  have files : (store.partition.segments.map fun segment => tree.fileContents segment.path) =
      (segmentsFrom timestamp offset parts).map fun batches => .ok (Segment.write batches) := by
    rw [segments, List.map_map]
    exact contents
  -- The writes themselves, and no longer how they are divided, say what the segments hold.
  obtain ⟨logs, read, entries⟩ := readSegments_from
    (fun part member w among => keyed w (List.mem_flatten.mpr ⟨part, member, among⟩)) fits files
  rw [decode_eq_rebuild, bootstrap_eq, readLog, read, ← entries]
  cases store.config.validate with
  | error e => rfl
  | ok _ =>
    cases store.readSnapshotLog tree with
    | error e => rfl
    | ok snapshot => exact congrArg Except.ok (unframed_rebuild ⟨snapshot, logs⟩)

theorem bootstrap_congr {store store' : Store} {tree tree' : FileTree}
    (hook : store'.readConfig = store.readConfig)
    (snapshot : store'.partition.snapshot.map tree'.fileContents =
      store.partition.snapshot.map tree.fileContents) :
    store'.bootstrap tree' = store.bootstrap tree := by
  have applied : store'.bootstrapLog = store.bootstrapLog := by
    funext log
    unfold bootstrapLog bootstrapLogged
    rw [hook]
  rw [bootstrap_eq, bootstrap_eq, readSnapshotLog_congr snapshot, applied]

end Store

theorem decode_divided {partition partition' : Partition} {tree tree' : FileTree}
    {config : StoreConfig} {readConfig : Reader Json} {timestamp offset : Int64}
    {writes : List Write} (keyed : ∀ w ∈ writes, w.key ≠ [])
    (division : Division config.reader tree partition timestamp offset writes)
    (division' : Division config.reader tree' partition' timestamp offset writes)
    (snapshot : partition'.snapshot.map tree'.fileContents =
      partition.snapshot.map tree.fileContents) :
    (Store.decode ⟨partition', config, readConfig⟩ tree').map State.unframed =
        (Store.decode ⟨partition, config, readConfig⟩ tree).map State.unframed ∧
      (config.validate = .ok () →
        ∀ state, Store.bootstrap ⟨partition, config, readConfig⟩ tree = .ok state →
          ∃ final, Store.decode ⟨partition, config, readConfig⟩ tree = .ok final) := by
  have first := Store.map_unframed_decode ⟨partition, config, readConfig⟩ keyed division
  have second := Store.map_unframed_decode ⟨partition', config, readConfig⟩ keyed division'
  have booted : Store.bootstrap ⟨partition', config, readConfig⟩ tree' =
      Store.bootstrap ⟨partition, config, readConfig⟩ tree :=
    Store.bootstrap_congr rfl snapshot
  constructor
  · rw [first, second, booted]
    rfl
  · intro valid state boot
    have sound : (config.validate.mapError StoreError.config) = .ok () := by
      rw [valid]
      rfl
    rw [sound, boot] at first
    obtain ⟨final, decoded, -⟩ := map_eq_ok_iff.mp first
    exact ⟨final, decoded⟩

/-! ## Three writes in two directories, cut in different places -/

namespace Spread

def key (group : Int64) : Key := .consensus .lastAppliedOffset group

def writes : List Write := [.put (key 1) [1], .put (key 2) [2], .absent (key 1)]

def snapshot : Bytes := (snapshotOfWrites 5 0 [.put (key 1) [9]]).toSnapshot.write

def files : List (RawText × FileNode) := [
  ("snapshot", .file snapshot),
  ("7-1-v1.log", .file (Segment.write [batchOfWrites 7 1000 (writes.drop 2)])),
  ("5-1-v1.log", .file (Segment.write [batchOfWrites 5 1000 (writes.take 2)]))]

def files' : List (RawText × FileNode) := [
  ("5-1-v1.log", .file (Segment.write
    [batchOfWrites 5 1000 (writes.take 1), batchOfWrites 6 1000 (writes.drop 1)])),
  ("snapshot", .file snapshot)]

def tree : FileTree :=
  { mount := ⟨"/"⟩, root := .ok (.dir [("0_0", .dir files), ("0_1", .dir files')]) }

def partition (path : Path) (files : List (RawText × FileNode)) : Partition :=
  .ofEntries ⟨"redpanda", "kvstore", 0⟩ 0 path files

theorem fits_of_length {part : List Write}
    (small : (draftOfWrites 5 1000 part).region.length ≤ 1000) :
    (draftOfWrites 5 1000 part).Fits {} := by
  refine ⟨Nat.le_trans small (by decide), ?_⟩
  rw [Int32.toInt_maxValue, BatchHeader.size]
  omega

set_option maxRecDepth 20000 in
def division : Division {} tree (partition ⟨"/0_0"⟩ files) 1000 5 writes where
  parts := [[writes.take 2], [writes.drop 2]]
  whole := rfl
  fits part member := by
    have small : ∀ part ∈ [writes.take 2, writes.drop 2],
        (draftOfWrites 5 1000 part).region.length ≤ 1000 := by decide
    exact fits_of_length (small part member)
  directory := files
  opened := rfl
  named := [(⟨5, 1, 1⟩, "5-1-v1.log"), (⟨7, 1, 1⟩, "7-1-v1.log")]
  order := ⟨by decide +kernel, by simp [SegmentName.Precedes]⟩
  strict := by simp [SegmentName.Precedes]
  contents := rfl

set_option maxRecDepth 20000 in
def division' : Division {} tree (partition ⟨"/0_1"⟩ files') 1000 5 writes where
  parts := [[writes.take 1, writes.drop 1]]
  whole := rfl
  fits part member := by
    have small : ∀ part ∈ [writes.take 1, writes.drop 1],
        (draftOfWrites 5 1000 part).region.length ≤ 1000 := by decide
    exact fits_of_length (small part member)
  directory := files'
  opened := rfl
  named := [(⟨5, 1, 1⟩, "5-1-v1.log")]
  order := ⟨by decide +kernel, by simp⟩
  strict := by simp
  contents := rfl

set_option maxRecDepth 20000 in
theorem bootstrap_partition :
    (Store.bootstrap ⟨partition ⟨"/0_0"⟩ files, { skipSnapshotCovered := true },
      RaftConfig.readJson⟩ tree).toOption.map (fun state => state.stats.snapshotLastOffset) =
        some (some 5) := by
  decide +kernel

end Spread

theorem decode_divided_directories :
    ∃ state state',
      Store.decode ⟨Spread.partition ⟨"/0_0"⟩ Spread.files, { skipSnapshotCovered := true },
        RaftConfig.readJson⟩ Spread.tree = .ok state ∧
      Store.decode ⟨Spread.partition ⟨"/0_1"⟩ Spread.files', { skipSnapshotCovered := true },
        RaftConfig.readJson⟩ Spread.tree = .ok state' ∧
      state'.unframed = state.unframed := by
  have keyed : ∀ w ∈ Spread.writes, w.key ≠ [] := by decide
  have snapshot : (Spread.partition ⟨"/0_0"⟩ Spread.files).snapshot.map
      Spread.tree.fileContents = some (.ok Spread.snapshot) := rfl
  have snapshot' : (Spread.partition ⟨"/0_1"⟩ Spread.files').snapshot.map
      Spread.tree.fileContents = some (.ok Spread.snapshot) := rfl
  obtain ⟨same, succeeds⟩ := @decode_divided _ _ _ _ { skipSnapshotCovered := true }
    RaftConfig.readJson _ _ _ keyed Spread.division Spread.division'
    (snapshot'.trans snapshot.symm)
  obtain ⟨booted, boot, -⟩ := exists_ok_of_map_eq_some Spread.bootstrap_partition
  obtain ⟨state, decoded⟩ := succeeds rfl booted boot
  rw [decoded] at same
  obtain ⟨state', decoded', unframed⟩ := map_eq_ok_iff.mp same
  exact ⟨state, state', decoded, decoded', unframed⟩

end PartitionLog.KeyValue
