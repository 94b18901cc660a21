import PartitionLog.KeyValue.Fixture
import PartitionLog.Proofs.KeyValue.LastWrite
import PartitionLog.Proofs.Segment.Truncation

/-!
# Stores with a torn last segment

A crash may cut the last segment anywhere. What is left is replayed as the batches in front of the
cut are, without a failure, and the replay of the whole segment only adds to that: `decode_torn`.
-/
namespace PartitionLog.KeyValue

/-! ## What a replay adds -/

/-- Keys stay live, and the counters of what was read do not fall. -/
structure State.Grows (before after : State) : Prop where
  live : ∀ key, (before.get? key).isSome → (after.get? key).isSome
  batchesRead : before.stats.batchesRead ≤ after.stats.batchesRead
  recordsRead : before.stats.recordsRead ≤ after.stats.recordsRead
  recordsApplied : before.stats.recordsApplied ≤ after.stats.recordsApplied
  absentPayloads : before.stats.absentPayloads ≤ after.stats.absentPayloads

namespace State.Grows

theorem refl (state : State) : Grows state state :=
  ⟨fun _ => id, Nat.le_refl _, Nat.le_refl _, Nat.le_refl _, Nat.le_refl _⟩

theorem trans {before middle after : State} (first : Grows before middle)
    (second : Grows middle after) : Grows before after :=
  ⟨fun key => second.live key ∘ first.live key,
    Nat.le_trans first.batchesRead second.batchesRead,
    Nat.le_trans first.recordsRead second.recordsRead,
    Nat.le_trans first.recordsApplied second.recordsApplied,
    Nat.le_trans first.absentPayloads second.absentPayloads⟩

theorem foldl {α : Type} {step : State → α → State} (each : ∀ state x, Grows state (step state x))
    (xs : List α) (state : State) : Grows state (xs.foldl step state) :=
  List.foldlRecOn (motive := Grows state) xs step (refl state) fun _ grown x _ =>
    grown.trans (each _ x)

end State.Grows

theorem Applies.live {readConfig : Reader Json} {records : List LoggedRecord} {before after : State}
    (applies : Applies readConfig records before after) (key : StoredKey)
    (live : (before.get? key).isSome) : (after.get? key).isSome := by
  rw [applies.get?, Option.isSome_or, live, Bool.or_true]

namespace Store

theorem grows_replayLogged (store : Store) (state : State) (r : LoggedRecord) :
    state.Grows (store.replayLogged state r) := by
  have live := (store.applies_replayLogged state r).live
  unfold replayLogged State.apply at live ⊢
  dsimp only at live ⊢
  split
  · rename_i covered
    exact ⟨fun _ => id, Nat.le_refl _, Nat.le_succ _, Nat.le_refl _, Nat.le_refl _⟩
  · rename_i uncovered
    rw [if_neg uncovered] at live
    split
    · exact ⟨fun _ => id, Nat.le_refl _, Nat.le_succ _, Nat.le_succ _, Nat.le_succ _⟩
    · rename_i payload
      rw [payload] at live
      exact ⟨live, Nat.le_refl _, Nat.le_succ _, Nat.le_succ _, Nat.le_refl _⟩

theorem grows_replayLogBatch (store : Store) (state : State) (batch : LogBatch) :
    state.Grows (store.replayLogBatch state batch) := by
  let counted : State := { state with stats.batchesRead := state.stats.batchesRead + 1 }
  have count : state.Grows counted :=
    ⟨fun _ => id, Nat.le_succ _, Nat.le_refl _, Nat.le_refl _, Nat.le_refl _⟩
  unfold replayLogBatch
  dsimp only
  split
  · exact ⟨fun _ => id, Nat.le_succ _, Nat.le_refl _, Nat.le_refl _, Nat.le_refl _⟩
  · exact count.trans (.foldl store.grows_replayLogged batch.records counted)

theorem grows_replayLogSegment (store : Store) (state : State) {kept batches : List LogBatch}
    (front : kept <+: batches) :
    (store.replayLogSegment state kept).Grows (store.replayLogSegment state batches) := by
  obtain ⟨more, rfl⟩ := front
  rw [replayLogSegment, replayLogSegment, List.foldl_append]
  exact .foldl store.grows_replayLogBatch more _

/-! ## The segment -/

/-- The bytes of the batches that end by the cut. -/
def wholeBefore (config : ReaderConfig) (cut : Nat) (held : Bytes) : Bytes :=
  let items := BatchCursor.items { config, stream := .ofBytes held }
  ((BatchCursor.batches items).filter (Batch.endsBy cut)).flatMap Batch.write

variable {store : Store} {tree tree' : FileTree} {segment : Segment} {batches : List LogBatch}

theorem readSegment_congr (read : store.readSegment tree segment = .ok batches)
    (same : tree'.fileContents segment.path = tree.fileContents segment.path) :
    store.readSegment tree' segment = .ok batches := by
  obtain ⟨held, contents⟩ := exists_contents_of_read read
  have reads := BatchCursor.reads_ofBytes store.config.reader held
  rw [readSegment_of_contents contents reads] at read
  exact (readSegment_of_contents (same.trans contents) reads).trans read

theorem readSegment_torn {cut : Nat} (read : store.readSegment tree segment = .ok batches)
    (torn : tree'.fileContents segment.path = List.take cut <$> tree.fileContents segment.path) :
    ∃ kept, kept <+: batches ∧ store.readSegment tree' segment = .ok kept ∧
      ∀ tree'' : FileTree, tree''.fileContents segment.path =
          wholeBefore store.config.reader cut <$> tree.fileContents segment.path →
        store.readSegment tree'' segment = .ok kept := by
  obtain ⟨held, contents⟩ := exists_contents_of_read read
  have reads := BatchCursor.reads_ofBytes store.config.reader held
  rw [readSegment_of_contents contents reads] at read
  rw [contents] at torn
  obtain ⟨items, reads', front, whole⟩ := reads.take cut
  obtain ⟨kept, read', front'⟩ := exists_prefix_of_mapM read front
  refine ⟨kept, front', (readSegment_of_contents torn reads').trans read', ?_⟩
  intro tree'' reduced
  -- The reduced segment has the batches found in front of the cut, and an empty tail.
  have reduced : tree''.fileContents segment.path =
      .ok ((BatchCursor.batches items).flatMap Batch.write ++ []) := by
    rw [List.append_nil, whole, Nat.zero_add, reduced, contents]
    rfl
  have sound := BatchCursor.map_ok_batches items (error_notMem_of_read read')
  rw [readSegment_of_written (.short (by decide)) reads'.intact reduced, ← mapM_readItem_ok, sound]
  exact read'

/-- The same files, except for the contents of the last segment. -/
structure LastRewritten (store : Store) (front : List Segment) (last : Segment)
    (rewrite : Bytes → Bytes) (tree tree' : FileTree) : Prop where
  segments : store.partition.segments = front ++ [last]
  snapshot : ∀ path, store.partition.snapshot = some path →
    tree'.fileContents path = tree.fileContents path
  earlier : ∀ segment ∈ front, tree'.fileContents segment.path = tree.fileContents segment.path
  last : tree'.fileContents last.path = rewrite <$> tree.fileContents last.path

variable {front : List Segment} {last : Segment}

theorem readLog_of_front {log : StoreLog}
    (segments : store.partition.segments = front ++ [last])
    (read : store.readLog tree = .ok log) :
    ∃ logs batches, log.segments = logs ++ [batches] ∧
      front.mapM (store.readSegment tree) = .ok logs ∧
      store.readSegment tree last = .ok batches := by
  obtain ⟨-, read⟩ := readLog_eq_ok_iff.mp read
  rw [segments] at read
  obtain ⟨logs, ending, frontRead, lastRead, split⟩ := mapM_append_eq_ok_iff.mp read
  obtain ⟨batches, none, here, nothing, rfl⟩ := mapM_cons_eq_ok_iff.mp lastRead
  cases nothing
  exact ⟨logs, batches, split, frontRead, here⟩

theorem LastRewritten.readLog {rewrite : Bytes → Bytes} {snapshot : Option SnapshotLog}
    {logs : List (List LogBatch)} (rewritten : store.LastRewritten front last rewrite tree tree')
    (snapshotRead : store.readSnapshotLog tree = .ok snapshot)
    (frontRead : front.mapM (store.readSegment tree) = .ok logs)
    (lastRead : store.readSegment tree' last = .ok batches) :
    store.readLog tree' = .ok ⟨snapshot, logs ++ [batches]⟩ := by
  rw [← readSnapshotLog_congr (Option.map_congr rewritten.snapshot)] at snapshotRead
  have same : ∀ segment ∈ front,
      store.readSegment tree segment = store.readSegment tree' segment := by
    intro segment member
    obtain ⟨batches, read⟩ := exists_ok_of_mem frontRead segment member
    exact read.trans (readSegment_congr read (rewritten.earlier segment member)).symm
  rw [mapM_congr_left same] at frontRead
  refine readLog_eq_ok_iff.mpr ⟨snapshotRead, ?_⟩
  rw [rewritten.segments]
  exact mapM_append_eq_ok_iff.mpr ⟨logs, [batches], frontRead,
    mapM_cons_eq_ok_iff.mpr ⟨batches, [], lastRead, rfl, rfl⟩, rfl⟩

end Store

theorem decode_torn {store : Store} {tree tree' : FileTree} {front : List Segment} {last : Segment}
    {state : State} {cut : Nat} (decoded : store.decode tree = .ok state)
    (torn : store.LastRewritten front last (List.take cut) tree tree') :
    ∃ state', store.decode tree' = .ok state' ∧
      (∀ tree'', store.LastRewritten front last (Store.wholeBefore store.config.reader cut) tree
          tree'' → store.decode tree'' = .ok state') ∧
      state'.Grows state := by
  obtain ⟨valid, log, read, rfl⟩ := Store.decode_eq_ok_iff.mp decoded
  obtain ⟨snapshotRead, -⟩ := Store.readLog_eq_ok_iff.mp read
  obtain ⟨logs, batches, split, frontRead, lastRead⟩ := Store.readLog_of_front torn.segments read
  obtain ⟨kept, shorter, lastRead', reduced⟩ := Store.readSegment_torn lastRead torn.last
  refine ⟨store.rebuild ⟨log.snapshot, logs ++ [kept]⟩, ?_, fun tree'' whole => ?_, ?_⟩
  · exact Store.decode_eq_ok_iff.mpr
      ⟨valid, _, torn.readLog snapshotRead frontRead lastRead', rfl⟩
  · exact Store.decode_eq_ok_iff.mpr
      ⟨valid, _, whole.readLog snapshotRead frontRead (reduced tree'' whole.last), rfl⟩
  · rw [Store.rebuild, Store.rebuild, split, List.foldl_append, List.foldl_append]
    exact store.grows_replayLogSegment _ shorter

/-! ## A cut inside the last batch of two segments -/

namespace CutShort

def draft (offset : Int64) : BatchDraft where
  baseOffset := offset
  batchType := storeBatchType
  records := Write.toRecords [.put (.consensus .lastAppliedOffset offset) (Wire.i64 5)]

def batch (offset : Int64) : Batch := (draft offset).build

def first : Segment := ⟨⟨"/0-1-v1.log"⟩⟩

def last : Segment := ⟨⟨"/1-1-v1.log"⟩⟩

def store : Store where
  partition := ⟨⟨"redpanda", "kvstore", 0⟩, 0, ⟨"/"⟩, [first, last], none⟩

def written : List (List Batch) := [[batch 0], [batch 1, batch 2]]

def held : Bytes := [batch 1, batch 2].flatMap Batch.write

def cut : Nat := (batch 1).write.length + 70

def tree (held : Bytes) : FileTree where
  mount := ⟨"/"⟩
  root := .ok (.dir [
    ("0-1-v1.log", .file ([batch 0].flatMap Batch.write)), ("1-1-v1.log", .file held)])

theorem contents (held : Bytes) :
    (tree held).fileContents first.path = .ok ([batch 0].flatMap Batch.write) ∧
      (tree held).fileContents last.path = .ok held :=
  ⟨FileTree.fileContents_child "0-1-v1.log" (by decide) (by decide) (by decide) (by decide) rfl,
    FileTree.fileContents_child "1-1-v1.log" (by decide) (by decide) (by decide) (by decide) rfl⟩

theorem rewritten (rewrite : Bytes → Bytes) :
    store.LastRewritten [first] last rewrite (tree held) (tree (rewrite held)) := by
  refine ⟨rfl, nofun, fun segment only => ?_, ?_⟩
  · obtain rfl := List.mem_singleton.mp only
    exact (contents _).1.trans (contents _).1.symm
  · rw [(contents _).2, (contents _).2]
    rfl

theorem intact :
    ∀ batches ∈ written, ∀ batch ∈ batches, Batch.Intact store.config.reader batch := by
  have small : (draft 0).region.length ≤ 1000 ∧ (draft 1).region.length ≤ 1000 ∧
      (draft 2).region.length ≤ 1000 := by
    decide +kernel
  have each (offset : Int64) (fit : (draft offset).region.length ≤ 1000) :
      Batch.Intact store.config.reader (batch offset) :=
    (BatchDraft.Fits.of_le fit (by decide) (by decide)).intact
  obtain ⟨zero, one, two⟩ := small
  simp only [written, List.forall_mem_cons]
  exact ⟨⟨each 0 zero, by simp⟩, ⟨each 1 one, each 2 two, by simp⟩, by simp⟩

theorem read_written :
    (store.readWritten store.partition.segments written).toOption.map (fun logs =>
      (store.rebuild ⟨none, logs⟩).items.map Item.offset) = some [0, 1, 2] := by
  decide +kernel

end CutShort

open CutShort in
theorem decode_torn_inside :
    ∃ state state', store.decode (tree held) = .ok state ∧
      store.decode (tree (held.take cut)) = .ok state' ∧
      store.decode (tree (Store.wholeBefore store.config.reader cut held)) = .ok state' ∧
      state.items.map Item.offset = [0, 1, 2] ∧ state'.Grows state := by
  have contents : (store.partition.segments.map fun segment =>
      (tree held).fileContents segment.path) =
        written.map fun batches => .ok (batches.flatMap Batch.write) := by
    simp [store, written, contents, held]
  obtain ⟨logs, read, offsets⟩ := exists_ok_of_map_eq_some read_written
  have decoded : store.decode (tree held) = _ := Store.decode_of_written rfl rfl intact contents
  rw [read] at decoded
  obtain ⟨state', tornDecoded, reduced, grown⟩ := decode_torn decoded (rewritten (List.take cut))
  exact ⟨_, state', decoded, tornDecoded, reduced _ (rewritten _), offsets, grown⟩

end PartitionLog.KeyValue
