import PartitionLog.KeyValue.Fixture
import PartitionLog.Partition.Fixture
import PartitionLog.Proofs.Batch.SizeLimit
import PartitionLog.Proofs.KeyValue.Log
import PartitionLog.Proofs.Segment.RoundTrip

/-!
# Failures of a rebuild

`Store.failures` lists everything that is wrong with a partition, in the order of the steps that
meet it. A rebuild fails with the first of them, and only if there is one: `decode_firstFailure`.
Behind the batches of a segment, a torn or blank tail adds nothing to the list, as long as no more
than the size limit is there of the records that a torn header declares.
-/
namespace PartitionLog.KeyValue

namespace Store

/-! ## Everything that is wrong -/

def recordFailures (header : BatchHeader) (record : Record) : List StoreError :=
  match Entry.ofRecord header record with
  | .error e => [.entry (header.baseOffset + record.offsetDelta) e]
  | .ok _ => []

def snapshotFailures (store : Store) (tree : FileTree) : List StoreError :=
  match store.partition.snapshot with
  | none => []
  | some path =>
    match tree.fileContents path with
    | .error e => [.snapshot (.io e)]
    | .ok bytes =>
      match Snapshot.ofBytes bytes with
      | .error e => [.snapshot e]
      | .ok file =>
        match StoreSnapshot.ofSnapshot file with
        | .error e => [.snapshotFormat e]
        | .ok snapshot => snapshot.batch.records.flatMap (recordFailures snapshot.batch.header)

def batchFailures (store : Store) (path : Path) (batch : Batch) : List StoreError :=
  if batch.header.batchType ≠ store.config.batchType then []
  else
    match batch.decodeRecords store.config.reader with
    | .error e => [.segment path e]
    | .ok records => records.flatMap (recordFailures batch.header)

def itemFailures (store : Store) (path : Path) : Except BatchError Batch → List StoreError
  | .error e => [.segment path e]
  | .ok batch => store.batchFailures path batch

def segmentFailures (store : Store) (tree : FileTree) (segment : Segment) : List StoreError :=
  match segment.batches tree store.config.reader with
  | .error e => [.segment segment.path (.io e)]
  | .ok cursor => cursor.items.flatMap (store.itemFailures segment.path)

def configFailures (store : Store) : List StoreError :=
  match store.config.validate with
  | .error e => [.config e]
  | .ok _ => []

def failures (store : Store) (tree : FileTree) : List StoreError :=
  store.configFailures ++ store.snapshotFailures tree ++
    store.partition.segments.flatMap (store.segmentFailures tree)

/-! ## The first failure -/

theorem failure?_readRecord (header : BatchHeader) (record : Record) :
    failure? (readRecord header record) = (recordFailures header record).head? := by
  have read := decodeEntry_eq header record
  rw [← failure?_map LoggedRecord.entry, ← read, decodeEntry, recordFailures]
  cases Entry.ofRecord header record <;> rfl

theorem failure?_readSnapshotLog (store : Store) (tree : FileTree) :
    failure? (store.readSnapshotLog tree) = (store.snapshotFailures tree).head? := by
  unfold readSnapshotLog snapshotFailures readSnapshot
  cases store.partition.snapshot with
  | none => rfl
  | some path =>
    dsimp only
    cases tree.fileContents path with
    | error e => rfl
    | ok bytes =>
      dsimp only [Except.mapError, bind, Except.bind]
      cases Snapshot.ofBytes bytes with
      | error e => rfl
      | ok file =>
        dsimp only
        cases StoreSnapshot.ofSnapshot file with
        | error e => rfl
        | ok snapshot =>
          rw [← failure?_mapM (failure?_readRecord snapshot.batch.header)]
          exact failure?_map _ _

theorem failure?_readItem (store : Store) (path : Path) (item : Except BatchError Batch) :
    failure? (store.readItem path item) = (store.itemFailures path item).head? := by
  cases item with
  | error e => rfl
  | ok batch =>
    change failure? (store.readBatch path batch) = (store.batchFailures path batch).head?
    unfold readBatch batchFailures
    split
    · rfl
    · cases batch.decodeRecords store.config.reader with
      | error e => rfl
      | ok records =>
        rw [← failure?_mapM (failure?_readRecord batch.header)]
        exact failure?_map _ _

theorem failure?_readSegment (store : Store) (tree : FileTree) (segment : Segment) :
    failure? (store.readSegment tree segment) = (store.segmentFailures tree segment).head? := by
  unfold readSegment segmentFailures
  cases segment.batches tree store.config.reader with
  | error e => rfl
  | ok cursor => exact failure?_mapM (store.failure?_readItem segment.path) cursor.items

theorem failure?_decode (store : Store) (tree : FileTree) :
    failure? (store.decode tree) = (store.failures tree).head? := by
  rw [decode_eq_rebuild, failures, List.head?_append, List.head?_append,
    ← failure?_readSnapshotLog, ← failure?_mapM (store.failure?_readSegment tree), configFailures]
  cases store.config.validate with
  | error e => rfl
  | ok _ =>
    change failure? (store.rebuild <$> store.readLog tree) = _
    rw [failure?_map, readLog]
    cases store.readSnapshotLog tree with
    | error e => rfl
    | ok snapshot => cases store.partition.segments.mapM (store.readSegment tree) <;> rfl

/-! ## Tails of segments -/

/-- Behind the header of a torn batch, only so much as the limit is taken for a torn write. -/
def tornFailures (store : Store) (path : Path) (index filePosition : Nat) (header : BatchHeader)
    (body : Bytes) : List StoreError :=
  if body.length ≤ store.config.reader.maxBatchSize then []
  else if header.computedHeaderCrc ≠ header.headerCrc then
    [.segment path (.headerCrcMismatch header.computedHeaderCrc
      { header, records := [], index, filePosition })]
  else [.segment path (.invalidBatchSize header.baseOffset header.batchSize)]

variable {store : Store} {tree : FileTree} {segment : Segment}

theorem flatMap_itemFailures_placedFrom (store : Store) (path : Path) (batches : List Batch)
    (index position : Nat) :
    ((BatchCursor.placedFrom index position batches).map .ok).flatMap (store.itemFailures path) =
      batches.flatMap (store.batchFailures path) := by
  induction batches generalizing index position with
  | nil => rfl
  | cons batch batches ih =>
    rw [BatchCursor.placedFrom, List.map_cons, List.flatMap_cons, List.flatMap_cons, ih]
    rfl

theorem segmentFailures_of_written {batches : List Batch} {tail : Bytes}
    {items : List (Except BatchError Batch)}
    (intact : ∀ batch ∈ batches, Batch.Intact store.config.reader batch)
    (contents : tree.fileContents segment.path = .ok (batches.flatMap Batch.write ++ tail))
    (behind : BatchCursor.Reads store.config.reader none batches.length
      (batches.flatMap Batch.write).length tail items) :
    store.segmentFailures tree segment = batches.flatMap (store.batchFailures segment.path) ++
      items.flatMap (store.itemFailures segment.path) := by
  rw [segmentFailures, Segment.batches_of_contents contents]
  dsimp only
  rw [BatchCursor.items_of_written intact behind, List.flatMap_append,
    flatMap_itemFailures_placedFrom]

theorem reads_torn {index position : Nat} {header : BatchHeader} {body : Bytes}
    (torn : BatchHeader.size + body.length < header.batchSize.toInt) (path : Path) :
    ∃ items,
      BatchCursor.Reads store.config.reader none index position (header.write ++ body) items ∧
      items.flatMap (store.itemFailures path) =
        store.tornFailures path index position header body := by
  -- Short bodies within the limit end the segment; above it, the checksum is looked at first.
  obtain ⟨size, declared, short⟩ : ∃ size, header.recordsSize = some size ∧ body.length < size := by
    have sane : ¬ header.batchSize.toInt < BatchHeader.size := by omega
    refine ⟨_, if_neg sane, ?_⟩
    omega
  unfold tornFailures
  by_cases within : body.length ≤ store.config.reader.maxBatchSize
  · rw [if_pos within]
    exact ⟨[], .ended (Batch.outcome_torn declared short within), rfl⟩
  · have oversized : store.config.reader.maxBatchSize < size := by omega
    have answer :
        Batch.outcome store.config.reader index position (header.write ++ body) none = _ :=
      (Batch.outcome_write body).trans (Batch.bodyOutcome_of_oversized size declared oversized body)
    rw [if_neg within] at answer ⊢
    split at answer
    · rename_i mismatch
      rw [if_pos mismatch]
      exact ⟨_, .failed answer, rfl⟩
    · rename_i headerCrc
      rw [if_neg headerCrc]
      exact ⟨_, .failed answer, rfl⟩

end Store

/-- A rebuild fails with the first failure there is. A batch that cannot be read is one, whatever
its type and offsets are; what a torn or blank tail adds is nothing up to the size limit. -/
theorem decode_firstFailure (store : Store) (tree : FileTree) :
    (∀ e, store.decode tree = .error e ↔ (store.failures tree).head? = some e) ∧
    ∀ segment ∈ store.partition.segments,
      (∀ cursor e, segment.batches tree store.config.reader = .ok cursor →
        .error e ∈ cursor.items → ∃ e', store.decode tree = .error e') ∧
      ∀ (batches : List Batch) (tail : Bytes),
        (∀ batch ∈ batches, Batch.Intact store.config.reader batch) →
        tree.fileContents segment.path = .ok (batches.flatMap Batch.write ++ tail) →
        (Tail store.config.reader tail →
          store.segmentFailures tree segment =
            batches.flatMap (store.batchFailures segment.path)) ∧
        ∀ (header : BatchHeader) (body : Bytes), tail = header.write ++ body →
          BatchHeader.size + body.length < header.batchSize.toInt →
          store.segmentFailures tree segment =
            batches.flatMap (store.batchFailures segment.path) ++
              store.tornFailures segment.path batches.length (batches.flatMap Batch.write).length
                header body := by
  have first (e : StoreError) :
      store.decode tree = .error e ↔ (store.failures tree).head? = some e := by
    rw [← Store.failure?_decode, failure?_eq_some_iff]
  refine ⟨first, fun segment listed => ⟨?_, ?_⟩⟩
  · intro cursor e opened member
    have failing : .segment segment.path e ∈ store.failures tree := by
      have here : .segment segment.path e ∈ store.segmentFailures tree segment := by
        rw [Store.segmentFailures, opened]
        exact List.mem_flatMap.mpr ⟨_, member, List.mem_singleton_self _⟩
      exact List.mem_append_right _ (List.mem_flatMap.mpr ⟨segment, listed, here⟩)
    have some := List.head?_eq_some_head (List.ne_nil_of_mem failing)
    exact ⟨_, (first _).mpr some⟩
  · intro batches tail intact contents
    constructor
    · intro ending
      have ended := ending.outcome batches.length (batches.flatMap Batch.write).length
      rw [Store.segmentFailures_of_written intact contents (.ended ended)]
      exact List.append_nil _
    · rintro header body rfl torn
      obtain ⟨items, reads, failures⟩ := Store.reads_torn torn segment.path
      rw [Store.segmentFailures_of_written intact contents reads, failures]

/-! ## A segment with torn tails of two lengths -/

namespace Torn

def own : Batch := batchOfWrites 0 0 [.put (.consensus .lastAppliedOffset 1) (Wire.i64 5)]

def later : Batch := (BatchDraft.oneValue 80).build

def tail (present : Nat) : Bytes := later.header.write ++ later.records.take present

def segment : Segment := ⟨⟨"/0-1-v1.log"⟩⟩

def store : Store where
  partition := ⟨⟨"redpanda", "kvstore", 0⟩, 0, ⟨"/"⟩, [segment], none⟩
  config := { reader := { maxBatchSize := 61 } }

def tree (tail : Bytes) : FileTree :=
  { mount := ⟨"/"⟩, root := .ok (.dir [("0-1-v1.log", .file (own.write ++ tail))]) }

theorem intact_own : ∀ batch ∈ [own], Batch.Intact store.config.reader batch := by
  intro batch member
  obtain rfl := List.mem_singleton.mp member
  exact BatchDraft.Fits.intact ⟨by decide, by decide⟩

set_option maxRecDepth 20000 in
theorem batchFailures_own : [own].flatMap (store.batchFailures segment.path) = [] := by
  apply List.eq_nil_of_length_eq_zero
  decide

theorem failures_eq (tail : Bytes) :
    store.failures (tree tail) = store.segmentFailures (tree tail) segment := by
  have config : store.configFailures = [] := rfl
  have snapshot : store.snapshotFailures (tree tail) = [] := rfl
  have segments : store.partition.segments = [segment] := rfl
  rw [Store.failures, config, snapshot, segments, List.nil_append, List.nil_append,
    List.flatMap_singleton]

set_option maxRecDepth 20000 in
theorem failures_empty : store.failures (tree []) = [] := by
  have nothing : Tail store.config.reader [] := .short (by decide)
  rw [failures_eq, Store.segmentFailures_of_written intact_own rfl (.ended (nothing.outcome _ _)),
    batchFailures_own]
  rfl

set_option maxRecDepth 20000 in
theorem length_beyondLimit :
    store.config.reader.maxBatchSize < later.records.length ∧
      store.config.reader.maxBatchSize < (later.records.take 62).length := by
  decide

set_option maxRecDepth 20000 in
theorem reads_beyondLimit :
    BatchCursor.Reads store.config.reader none [own].length ([own].flatMap Batch.write).length
      (tail 62) [.error (.invalidBatchSize 7 150)] := by
  have whole : Batch.Sealed later := BatchDraft.sealed_build _ (by decide)
  obtain ⟨oversized, beyond⟩ := length_beyondLimit
  exact .failed (Batch.outcome_of_oversized whole oversized beyond)

theorem mem_items_beyondLimit :
    .error (.invalidBatchSize 7 150) ∈
      BatchCursor.items
        { config := store.config.reader,
          stream := .ofBytes ([own].flatMap Batch.write ++ tail 62) } := by
  rw [BatchCursor.items_of_written intact_own reads_beyondLimit]
  exact List.mem_append_right _ (List.mem_singleton_self _)

theorem failures_beyondLimit :
    store.failures (tree (tail 62)) = [.segment segment.path (.invalidBatchSize 7 150)] := by
  rw [failures_eq, Store.segmentFailures_of_written intact_own rfl reads_beyondLimit,
    batchFailures_own]
  rfl

end Torn

set_option maxRecDepth 20000 in
theorem decode_firstFailure_atLimit :
    BatchHeader.size + (Torn.later.records.take 61).length < Torn.later.header.batchSize.toInt ∧
      (∀ e, Torn.store.decode (Torn.tree (Torn.tail 61)) ≠ .error e) ∧
      (∀ e, Torn.store.decode (Torn.tree (List.replicate 100 0)) ≠ .error e) ∧
      ∃ e, Torn.store.decode (Torn.tree (Torn.tail 62)) = .error e := by
  have torn : BatchHeader.size + (Torn.later.records.take 61).length <
      Torn.later.header.batchSize.toInt := by
    decide
  have listed : Torn.segment ∈ Torn.store.partition.segments := List.mem_singleton_self _
  refine ⟨torn, fun e failed => ?_, fun e failed => ?_, ?_⟩
  · obtain ⟨first, each⟩ := decode_firstFailure Torn.store (Torn.tree (Torn.tail 61))
    have found := ((each _ listed).2 [Torn.own] _ Torn.intact_own rfl).2 _ _ rfl torn
    have within : (Torn.later.records.take 61).length ≤ Torn.store.config.reader.maxBatchSize := by
      decide
    rw [Torn.batchFailures_own, Store.tornFailures, if_pos within] at found
    have some := (first e).mp failed
    rw [Torn.failures_eq, found] at some
    cases some
  · obtain ⟨first, each⟩ := decode_firstFailure Torn.store (Torn.tree (List.replicate 100 0))
    have blank : Tail Torn.store.config.reader (List.replicate 100 0) :=
      .blank ⟨List.replicate 39 0, rfl⟩
    have found := ((each _ listed).2 [Torn.own] _ Torn.intact_own rfl).1 blank
    rw [Torn.batchFailures_own] at found
    have some := (first e).mp failed
    rw [Torn.failures_eq, found] at some
    cases some
  · obtain ⟨-, each⟩ := decode_firstFailure Torn.store (Torn.tree (Torn.tail 62))
    exact (each _ listed).1 _ (.invalidBatchSize 7 150) rfl Torn.mem_items_beyondLimit

/-- The tail is the front of a batch, with one byte more of the records than the limit. -/
theorem decode_firstFailure_beyondLimit :
    Torn.store.config.validate = .ok () ∧ Torn.tail 62 <+: Torn.later.write ∧
      Torn.tail 62 ≠ Torn.later.write ∧ Torn.store.failures (Torn.tree []) = [] ∧
      (Torn.store.decode (Torn.tree (Torn.tail 62))).map State.size =
        .error (.segment Torn.segment.path (.invalidBatchSize 7 150)) := by
  have front : Torn.tail 62 <+: Torn.later.write :=
    (List.prefix_append_right_inj _).mpr (List.take_prefix 62 _)
  have proper : Torn.tail 62 ≠ Torn.later.write := by
    intro same
    have lengths : (Torn.tail 62).length ≠ Torn.later.write.length := by decide +kernel
    exact lengths (congrArg List.length same)
  refine ⟨rfl, front, proper, Torn.failures_empty, ?_⟩
  have first := Torn.store.failure?_decode (Torn.tree (Torn.tail 62))
  rw [Torn.failures_beyondLimit] at first
  rw [failure?_eq_some_iff.mp first]
  rfl

end PartitionLog.KeyValue
