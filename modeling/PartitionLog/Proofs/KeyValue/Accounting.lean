import PartitionLog.Proofs.Forward
import PartitionLog.Proofs.KeyValue.Failures
import PartitionLog.Proofs.Segment.Truncation

/-!
# Strict accounting of records

Strict accounting changes one answer: a batch of the store whose records are all there, but leave
bytes of their region, is a failure. So a strict rebuild gives what a lenient one does or fails, and
where only the strict one fails, it does at the first batch with bytes left: `decode_strict`.
-/
namespace PartitionLog

/-! ## One batch -/

namespace Batch

def leftOver (batch : Batch) : BatchError :=
  .recordAccounting batch.header.baseOffset batch.records.length
    (batch.records.length - batch.unread.length)

theorem decodeRecords_strict (config : ReaderConfig) (batch : Batch) :
    batch.decodeRecords { config with strictRecordAccounting := true } =
      (batch.decodeRecords { config with strictRecordAccounting := false } >>= fun records =>
        if batch.unread = [] then .ok records else .error batch.leftOver) := by
  unfold decodeRecords leftOver unread
  generalize (Reader.replicate Record.read batch.recordCount).run batch.records = answer
  obtain ⟨answer, rest⟩ := answer
  cases answer with
  | error e => rfl
  | ok records => by_cases whole : rest = [] <;> simp [whole, bind, Except.bind]

end Batch

/-! ## The batches of a segment -/

namespace BatchCursor

theorem Reads.withAccounting {config : ReaderConfig} {stop : Option IoError} {index position : Nat}
    {held : Bytes} {items : List (Except BatchError Batch)}
    (reads : Reads config stop index position held items) (strict : Bool) :
    Reads { config with strictRecordAccounting := strict } stop index position held items := by
  induction reads with
  | ended ending => exact .ended ending
  | failed failing => exact .failed failing
  | found finding _ ih => exact .found finding ih

theorem items_withAccounting (config : ReaderConfig) (stream : ByteStream) (strict : Bool) :
    items { config := { config with strictRecordAccounting := strict }, stream } =
      items { config, stream } :=
  (reads_items _ rfl).unique ((reads_items { config, stream } rfl).withAccounting strict)

end BatchCursor

namespace KeyValue

namespace Store

def withAccounting (store : Store) (strict : Bool) : Store :=
  { store with config.reader.strictRecordAccounting := strict }

def segmentItems (store : Store) (tree : FileTree) (segment : Segment) :
    Except IoError (List (Except BatchError Batch)) :=
  BatchCursor.items <$> segment.batches tree store.config.reader

/-- The batches of the store up to the end of a segment or its first error. -/
def ownBatches (store : Store) (tree : FileTree) (segment : Segment) : List Batch :=
  match store.segmentItems tree segment with
  | .error _ => []
  | .ok items =>
    (BatchCursor.batches items).filter fun batch => batch.header.batchType = store.config.batchType

/-- In replay order, each with the file it is from. -/
def replayedBatches (store : Store) (tree : FileTree) : List (Path × Batch) :=
  store.partition.segments.flatMap fun segment =>
    (store.ownBatches tree segment).map (Prod.mk segment.path)

variable {store : Store} {tree : FileTree} {path : Path} {batch : Batch} {segment : Segment}

theorem readSegment_eq (store : Store) (tree : FileTree) (segment : Segment) :
    store.readSegment tree segment =
      ((store.segmentItems tree segment).mapError (.segment segment.path ∘ .io) >>=
        List.mapM (store.readItem segment.path)) := by
  unfold readSegment segmentItems
  cases segment.batches tree store.config.reader <;> rfl

theorem segmentFailures_eq (store : Store) (tree : FileTree) (segment : Segment) :
    store.segmentFailures tree segment =
      match store.segmentItems tree segment with
      | .error e => [.segment segment.path (.io e)]
      | .ok items => items.flatMap (store.itemFailures segment.path) := by
  unfold segmentFailures segmentItems
  cases segment.batches tree store.config.reader <;> rfl

/-! ## What the accounting leaves alone -/

theorem segmentItems_withAccounting (store : Store) (strict : Bool) (tree : FileTree)
    (segment : Segment) :
    (store.withAccounting strict).segmentItems tree segment = store.segmentItems tree segment := by
  unfold segmentItems Segment.batches
  cases tree.openFile segment.path with
  | error e => rfl
  | ok stream =>
    exact congrArg Except.ok (BatchCursor.items_withAccounting store.config.reader stream strict)

theorem decodeRecords_withAccounting (store : Store) (batch : Batch) :
    batch.decodeRecords (store.withAccounting true).config.reader =
      (batch.decodeRecords (store.withAccounting false).config.reader >>= fun records =>
        if batch.unread = [] then .ok records else .error batch.leftOver) :=
  Batch.decodeRecords_strict store.config.reader batch

/-! ## Where the strict rebuild succeeds -/

theorem readBatch_of_strict {logged : LogBatch}
    (read : (store.withAccounting true).readBatch path batch = .ok logged) :
    (store.withAccounting false).readBatch path batch = .ok logged := by
  by_cases own : batch.header.batchType = store.config.batchType
  · have reads (strict : Bool) : (store.withAccounting strict).readBatch path batch =
        ((batch.decodeRecords (store.withAccounting strict).config.reader).mapError
            (.segment path) >>= fun records =>
          LogBatch.mk batch.header <$> records.mapM (readRecord batch.header)) :=
      if_neg (not_not_intro own)
    rw [reads] at read ⊢
    obtain ⟨records, decoded, logs⟩ := bind_eq_ok_iff.mp read
    rw [mapError_eq_ok_iff, decodeRecords_withAccounting] at decoded
    obtain ⟨records', lenient, whole⟩ := bind_eq_ok_iff.mp decoded
    split at whole
    · cases whole
      exact bind_eq_ok_iff.mpr ⟨records, mapError_eq_ok_iff.mpr lenient, logs⟩
    · cases whole
  · have foreign (strict : Bool) :
        (store.withAccounting strict).readBatch path batch = .ok ⟨batch.header, []⟩ :=
      if_pos own
    rw [foreign] at read ⊢
    exact read

theorem readItem_of_strict {logged : LogBatch} (item : Except BatchError Batch)
    (read : (store.withAccounting true).readItem path item = .ok logged) :
    (store.withAccounting false).readItem path item = .ok logged := by
  cases item with
  | error e => exact read
  | ok batch => exact readBatch_of_strict read

theorem readSegment_of_strict (segment : Segment) {batches : List LogBatch}
    (read : (store.withAccounting true).readSegment tree segment = .ok batches) :
    (store.withAccounting false).readSegment tree segment = .ok batches := by
  rw [readSegment_eq, segmentItems_withAccounting] at read ⊢
  obtain ⟨items, found, read⟩ := bind_eq_ok_iff.mp read
  exact bind_eq_ok_iff.mpr ⟨items, found, mapM_mono (fun item _ => readItem_of_strict item) read⟩

theorem decode_of_strict {state : State}
    (decoded : (store.withAccounting true).decode tree = .ok state) :
    (store.withAccounting false).decode tree = .ok state := by
  obtain ⟨valid, log, read, rfl⟩ := decode_eq_ok_iff.mp decoded
  obtain ⟨snapshot, segments⟩ := readLog_eq_ok_iff.mp read
  refine decode_eq_ok_iff.mpr ⟨valid, log, readLog_eq_ok_iff.mpr ⟨snapshot, ?_⟩, rfl⟩
  exact mapM_mono (fun segment _ => readSegment_of_strict segment) segments

/-! ## Where the strict rebuild alone fails -/

def accountingFailure? (path : Path) (batch : Batch) : Option StoreError :=
  if batch.unread = [] then none else some (.segment path batch.leftOver)

theorem unread_eq_nil_of_none (sound : accountingFailure? path batch = none) :
    batch.unread = [] := by
  by_contra left
  rw [accountingFailure?, if_neg left] at sound
  cases sound

theorem exists_consumed_of_some {e : StoreError}
    (failing : accountingFailure? path batch = some e) :
    ∃ consumed, batch.unread ≠ [] ∧ batch.unread = batch.records.drop consumed ∧
      consumed < batch.records.length ∧
      e = .segment path
        (.recordAccounting batch.header.baseOffset batch.records.length consumed) := by
  unfold accountingFailure? at failing
  split at failing
  · cases failing
  · rename_i left
    cases failing
    have suffix := batch.unread_suffix
    have within := suffix.length_le
    have some := List.length_pos_iff.mpr left
    exact ⟨_, left, List.suffix_iff_eq_drop.mp suffix, by omega, rfl⟩

theorem batchFailures_strict (none : (store.withAccounting false).batchFailures path batch = []) :
    (store.withAccounting true).batchFailures path batch =
      if batch.header.batchType = store.config.batchType then
        (accountingFailure? path batch).toList
      else [] := by
  unfold batchFailures at none ⊢
  by_cases own : batch.header.batchType = store.config.batchType
  · have mine (strict : Bool) :
        ¬ batch.header.batchType ≠ (store.withAccounting strict).config.batchType :=
      not_not_intro own
    rw [if_neg (mine false)] at none
    rw [if_neg (mine true), if_pos own, decodeRecords_withAccounting]
    unfold accountingFailure?
    cases lenient : batch.decodeRecords (store.withAccounting false).config.reader with
    | error e =>
      rw [lenient] at none
      cases none
    | ok records =>
      rw [lenient] at none
      by_cases whole : batch.unread = []
      · simp only [bind, Except.bind, if_pos whole]
        exact none
      · simp only [bind, Except.bind, if_neg whole]
        rfl
  · rw [if_neg own]
    exact if_pos own

theorem itemFailures_strict {items : List (Except BatchError Batch)}
    (none : items.flatMap ((store.withAccounting false).itemFailures path) = []) :
    items.flatMap ((store.withAccounting true).itemFailures path) =
      ((BatchCursor.batches items).filter fun batch =>
        batch.header.batchType = store.config.batchType).filterMap (accountingFailure? path) := by
  induction items with
  | nil => rfl
  | cons item items ih =>
    obtain ⟨first, rest⟩ := List.append_eq_nil_iff.mp none
    cases item with
    | error e => cases first
    | ok batch =>
      have first := batchFailures_strict first
      rw [List.flatMap_cons, ih rest, BatchCursor.batches_ok, itemFailures, first]
      by_cases own : batch.header.batchType = store.config.batchType
      · rw [if_pos own, List.filter_cons_of_pos (by simpa using own), List.filterMap_cons]
        cases accountingFailure? path batch <;> rfl
      · rw [if_neg own, List.filter_cons_of_neg (by simpa using own)]
        rfl

theorem segmentFailures_strict
    (none : (store.withAccounting false).segmentFailures tree segment = []) :
    (store.withAccounting true).segmentFailures tree segment =
      (store.ownBatches tree segment).filterMap (accountingFailure? segment.path) := by
  rw [segmentFailures_eq, segmentItems_withAccounting] at none ⊢
  unfold ownBatches
  cases found : store.segmentItems tree segment with
  | error e =>
    rw [found] at none
    cases none
  | ok items =>
    rw [found] at none
    exact itemFailures_strict none

theorem failures_strict (none : (store.withAccounting false).failures tree = []) :
    (store.withAccounting true).failures tree =
      (store.replayedBatches tree).filterMap fun (path, batch) =>
        accountingFailure? path batch := by
  obtain ⟨before, segments⟩ := List.append_eq_nil_iff.mp none
  have each := List.flatMap_eq_nil_iff.mp segments
  -- Settings and snapshot are the same for both.
  have before : (store.withAccounting true).configFailures ++
      (store.withAccounting true).snapshotFailures tree = [] := before
  rw [failures, before, List.nil_append, replayedBatches, List.filterMap_flatMap]
  simp only [List.filterMap_map]
  refine congrArg List.flatten (List.map_congr_left fun segment member => ?_)
  exact segmentFailures_strict (each segment member)

end Store

theorem decode_strict (store : Store) (tree : FileTree) :
    (∀ state, (store.withAccounting true).decode tree = .ok state →
      (store.withAccounting false).decode tree = .ok state) ∧
    (∀ state e, (store.withAccounting false).decode tree = .ok state →
      (store.withAccounting true).decode tree = .error e →
      ∃ before path batch after consumed,
        store.replayedBatches tree = before ++ (path, batch) :: after ∧
          (∀ earlier ∈ before, earlier.2.unread = []) ∧
          batch.unread ≠ [] ∧ batch.unread = batch.records.drop consumed ∧
          consumed < batch.records.length ∧
          e = .segment path
            (.recordAccounting batch.header.baseOffset batch.records.length consumed)) ∧
    ∀ e, (store.withAccounting false).decode tree = .error e →
      ∃ e', (store.withAccounting true).decode tree = .error e' := by
  refine ⟨fun state => Store.decode_of_strict, fun state e lenient failed => ?_, ?_⟩
  · have none : (store.withAccounting false).failures tree = [] := by
      rw [← List.head?_eq_none_iff, ← Store.failure?_decode, lenient]
      rfl
    have first := Store.failure?_decode (store.withAccounting true) tree
    rw [Store.failures_strict none, failed, List.head?_filterMap] at first
    obtain ⟨before, ⟨path, batch⟩, after, split, found, earlier⟩ :=
      List.findSome?_eq_some_iff.mp first.symm
    obtain ⟨consumed, facts⟩ := Store.exists_consumed_of_some found
    exact ⟨before, path, batch, after, consumed, split,
      fun pair member => Store.unread_eq_nil_of_none (earlier pair member), facts⟩
  · intro e failed
    cases strict : (store.withAccounting true).decode tree with
    | error e' => exact ⟨e', rfl⟩
    | ok state =>
      rw [Store.decode_of_strict strict] at failed
      cases failed

/-! ## A byte behind the last record -/

namespace LeftOver
open OneSegment (segment tree)

def draft : BatchDraft where
  baseOffset := 0
  batchType := storeBatchType
  records := Write.toRecords [.put (.consensus .lastAppliedOffset 1) (Wire.i64 5)]

def whole : Batch := draft.build

def loose : Batch :=
  .seal { draft.unsealed with batchSize := draft.unsealed.batchSize + 1 } (draft.region ++ [0])

def store : Store := { partition := OneSegment.partition }

def missing : FileTree := { mount := ⟨"/"⟩, root := .ok (.dir []) }

theorem intact : ∀ batch ∈ [whole, loose], Batch.Intact store.config.reader batch := by
  have small : draft.region.length ≤ 1000 := by decide
  have sealed : Batch.Intact store.config.reader whole :=
    (BatchDraft.Fits.of_le small (by decide) (by decide)).intact
  have extended : Batch.Intact store.config.reader loose :=
    (Batch.sealed_seal (by decide)).intact (by decide)
  simp [sealed, extended]

theorem decode_tree {batches : List Batch} (among : batches ⊆ [whole, loose]) (strict : Bool) :
    (store.withAccounting strict).decode (tree batches) =
      ((store.withAccounting strict).readWritten [segment] [batches]).map fun logs =>
        (store.withAccounting strict).rebuild ⟨none, logs⟩ := by
  refine OneSegment.decode_tree rfl rfl fun batch listed => ?_
  have found := intact batch (among listed)
  exact ⟨found.headerCrc, found.size, found.within, found.crc⟩

theorem read_whole :
    ((store.withAccounting true).readWritten [segment] [[whole]]).toOption.map (fun logs =>
      ((store.withAccounting true).rebuild ⟨none, logs⟩).stats.recordsApplied) = some 1 := by
  decide

theorem read_loose :
    ((store.withAccounting false).readWritten [segment] [[whole, loose]]).toOption.map (fun logs =>
      ((store.withAccounting false).rebuild ⟨none, logs⟩).stats.recordsApplied) = some 2 ∧
    failure? ((store.withAccounting true).readWritten [segment] [[whole, loose]]) =
      some (.segment segment.path (.recordAccounting 0 31 30)) := by
  decide

end LeftOver

open LeftOver in
theorem decode_strict_loose :
    (∃ state, (store.withAccounting true).decode (OneSegment.tree [whole]) = .ok state ∧
      (store.withAccounting false).decode (OneSegment.tree [whole]) = .ok state) ∧
    (∃ (path : Path) (batch : Batch) (consumed : Nat),
      batch.unread = batch.records.drop consumed ∧ consumed < batch.records.length ∧
      (store.withAccounting true).decode (OneSegment.tree [whole, loose]) =
        .error (.segment path
          (.recordAccounting batch.header.baseOffset batch.records.length consumed))) ∧
    ∃ e, (store.withAccounting true).decode missing = .error e := by
  refine ⟨?_, ?_, ?_⟩
  · obtain ⟨logs, read, -⟩ := exists_ok_of_map_eq_some read_whole
    have decoded := @decode_tree [whole] (by simp) true
    rw [read] at decoded
    exact ⟨_, decoded, (decode_strict store _).1 _ decoded⟩
  · obtain ⟨lenient, failure⟩ := read_loose
    obtain ⟨logs, read, -⟩ := exists_ok_of_map_eq_some lenient
    have decoded := decode_tree (List.Subset.refl _) false
    have failed := decode_tree (List.Subset.refl _) true
    rw [read] at decoded
    rw [failure?_eq_some_iff.mp failure] at failed
    obtain ⟨-, path, batch, -, consumed, -, -, -, unread, within, same⟩ :=
      (decode_strict store _).2.1 _ _ decoded failed
    exact ⟨path, batch, consumed, unread, within, same ▸ failed⟩
  · have failed : failure? ((store.withAccounting false).decode missing) =
        some (.segment OneSegment.segment.path (.io .notFound)) := by
      decide
    exact (decode_strict store _).2.2 _ (failure?_eq_some_iff.mp failed)

end KeyValue
end PartitionLog
