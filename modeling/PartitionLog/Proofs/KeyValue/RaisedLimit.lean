import PartitionLog.Proofs.KeyValue.Accounting

/-!
# Higher size limits

A higher size limit takes nothing away: what ended the data still does, since a read that found too
few bytes finds too few for a higher limit, and what was a batch still is one. So items without an
error stay as they are, and so does a state that was rebuilt: `decode_raisedLimit`.
-/
namespace PartitionLog

def ReaderConfig.withLimit (config : ReaderConfig) (limit : Nat) : ReaderConfig :=
  { config with maxBatchSize := limit }

variable {config : ReaderConfig} {limit : Nat} {stop : Option IoError}

/-! ## One batch -/

namespace Batch

variable {index filePosition : Nat} {held : Bytes} {header : BatchHeader} {batch : Batch}

theorem Intact.withLimit (intact : Intact config batch) (higher : config.maxBatchSize ≤ limit) :
    Intact (config.withLimit limit) batch :=
  ⟨intact.headerCrc, intact.size, Nat.le_trans intact.within higher, intact.crc⟩

theorem bodyLimit_le_withLimit (higher : config.maxBatchSize ≤ limit) (header : BatchHeader) :
    bodyLimit config header ≤ bodyLimit (config.withLimit limit) header :=
  Nat.le_min.mpr ⟨Nat.min_le_left _ _,
    Nat.le_trans (Nat.min_le_right _ _) (Nat.succ_le_succ higher)⟩

theorem ended_of_bodyOutcome (present : ¬ header.isZeroed) {body : Bytes}
    (ending : bodyOutcome config index filePosition header body stop = .ok none) :
    body.length < bodyLimit config header ∧ ended stop = .ok none := by
  rw [bodyOutcome, if_neg present] at ending
  split at ending
  · rename_i short
    exact ⟨short, ending⟩
  · obtain ⟨_, _, found⟩ := map_eq_ok_iff.mp ending
    cases found

theorem bodyOutcome_withLimit (higher : config.maxBatchSize ≤ limit) {body : Bytes}
    (ending : bodyOutcome config index filePosition header body stop = .ok none) :
    bodyOutcome (config.withLimit limit) index filePosition header body stop = .ok none := by
  by_cases zeroed : header.isZeroed
  · rw [bodyOutcome, if_pos zeroed]
  · obtain ⟨short, ended⟩ := ended_of_bodyOutcome zeroed ending
    rw [bodyOutcome, if_neg zeroed,
      if_pos (Nat.lt_of_lt_of_le short (bodyLimit_le_withLimit higher header)), ended]

theorem outcome_withLimit (higher : config.maxBatchSize ≤ limit) {found : Option Batch}
    (clean : outcome config index filePosition held stop = .ok found) :
    outcome (config.withLimit limit) index filePosition held stop = .ok found := by
  cases found with
  | some batch =>
    obtain ⟨intact, placed, positioned, following⟩ := outcome_eq_some_iff.mp clean
    exact outcome_eq_some_iff.mpr ⟨intact.withLimit higher, placed, positioned, following⟩
  | none =>
    unfold outcome at clean ⊢
    split
    · rename_i short
      rwa [if_pos short] at clean
    · rename_i enough
      rw [if_neg enough] at clean
      exact bodyOutcome_withLimit higher clean

end Batch

/-! ## The batches of a segment -/

namespace BatchCursor

theorem Reads.withLimit {index position : Nat} {held : Bytes}
    {items : List (Except BatchError Batch)} (reads : Reads config stop index position held items)
    (higher : config.maxBatchSize ≤ limit) (sound : ∀ e, .error e ∉ items) :
    Reads (config.withLimit limit) stop index position held items := by
  induction reads with
  | ended ending => exact .ended (Batch.outcome_withLimit higher ending)
  | failed failing => exact absurd List.mem_cons_self (sound _)
  | found finding _ ih =>
    have later := ih fun e member => sound e (List.mem_cons_of_mem _ member)
    exact .found (Batch.outcome_withLimit higher finding) later

theorem items_withLimit {stream : ByteStream} (higher : config.maxBatchSize ≤ limit)
    (sound : ∀ e, .error e ∉ items { config, stream }) :
    items { config := config.withLimit limit, stream } = items { config, stream } :=
  (reads_items _ rfl).unique ((reads_items { config, stream } rfl).withLimit higher sound)

end BatchCursor

namespace KeyValue

namespace Store

def withLimit (store : Store) (limit : Nat) : Store :=
  { store with config.reader := store.config.reader.withLimit limit }

variable {store : Store} {tree : FileTree} {segment : Segment}

theorem segmentItems_withLimit {items : List (Except BatchError Batch)}
    (higher : store.config.reader.maxBatchSize ≤ limit) (sound : ∀ e, .error e ∉ items)
    (found : store.segmentItems tree segment = .ok items) :
    (store.withLimit limit).segmentItems tree segment = .ok items := by
  unfold segmentItems Segment.batches at found ⊢
  cases opened : tree.openFile segment.path with
  | error e =>
    rw [opened] at found
    cases found
  | ok stream =>
    rw [opened] at found
    cases found
    exact congrArg Except.ok (BatchCursor.items_withLimit higher sound)

theorem readSegment_withLimit {batches : List LogBatch}
    (higher : store.config.reader.maxBatchSize ≤ limit)
    (read : store.readSegment tree segment = .ok batches) :
    (store.withLimit limit).readSegment tree segment = .ok batches := by
  rw [readSegment_eq] at read ⊢
  obtain ⟨items, found, read⟩ := bind_eq_ok_iff.mp read
  have sound := error_notMem_of_read read
  have again := segmentItems_withLimit higher sound (mapError_eq_ok_iff.mp found)
  exact bind_eq_ok_iff.mpr ⟨items, mapError_eq_ok_iff.mpr again, read⟩

theorem decode_withLimit {state : State} (higher : store.config.reader.maxBatchSize ≤ limit)
    (valid : (store.withLimit limit).config.validate = .ok ())
    (decoded : store.decode tree = .ok state) :
    (store.withLimit limit).decode tree = .ok state := by
  obtain ⟨-, log, read, rfl⟩ := decode_eq_ok_iff.mp decoded
  obtain ⟨snapshot, segments⟩ := readLog_eq_ok_iff.mp read
  refine decode_eq_ok_iff.mpr ⟨valid, log, readLog_eq_ok_iff.mpr ⟨snapshot, ?_⟩, rfl⟩
  exact mapM_mono (fun segment _ => readSegment_withLimit higher) segments

end Store

theorem decode_raisedLimit :
    (∀ (config : ReaderConfig) (stream : ByteStream) (limit : Nat), config.maxBatchSize ≤ limit →
      (∀ e, .error e ∉ BatchCursor.items { config, stream }) →
      BatchCursor.items { config := config.withLimit limit, stream } =
        BatchCursor.items { config, stream }) ∧
    ∀ (store : Store) (tree : FileTree) (state : State) (limit : Nat),
      store.config.reader.maxBatchSize ≤ limit →
      (store.withLimit limit).config.validate = .ok () →
      store.decode tree = .ok state → (store.withLimit limit).decode tree = .ok state :=
  ⟨fun _ _ _ => BatchCursor.items_withLimit, fun _ _ _ _ => Store.decode_withLimit⟩

/-! ## A torn tail, as long as the lower limit -/

namespace Torn

set_option maxRecDepth 20000 in
theorem reads_atLimit :
    BatchCursor.Reads store.config.reader none [own].length ([own].flatMap Batch.write).length
      (tail 61) [] := by
  have declared : later.header.recordsSize = some later.records.length :=
    (BatchDraft.sealed_build _ (by decide)).size
  have lengths : (later.records.take 61).length < later.records.length ∧
      (later.records.take 61).length ≤ store.config.reader.maxBatchSize := by
    decide
  exact .ended (Batch.outcome_torn declared lengths.1 lengths.2)

theorem items_atLimit :
    BatchCursor.items
      { config := store.config.reader,
        stream := .ofBytes ([own].flatMap Batch.write ++ tail 61) } = [.ok own] := by
  rw [BatchCursor.items_of_written intact_own reads_atLimit]
  rfl

theorem exists_state_atLimit : ∃ state, store.decode (tree (tail 61)) = .ok state := by
  have sound : failure? (store.decode (tree (tail 61))) = none := by
    rw [Store.failure?_decode, failures_eq,
      Store.segmentFailures_of_written intact_own rfl reads_atLimit, batchFailures_own]
    rfl
  cases decoded : store.decode (tree (tail 61)) with
  | error e =>
    rw [decoded] at sound
    cases sound
  | ok state => exact ⟨state, rfl⟩

end Torn

/-- There is room for the whole batch then, and what is there of it is still its front. -/
theorem decode_raisedLimit_torn :
    (∃ state, Torn.store.decode (Torn.tree (Torn.tail 61)) = .ok state ∧
      (Torn.store.withLimit 1000).decode (Torn.tree (Torn.tail 61)) = .ok state) ∧
    BatchCursor.items
      { config := Torn.store.config.reader.withLimit 1000,
        stream := .ofBytes ([Torn.own].flatMap Batch.write ++ Torn.tail 61) } =
          [.ok Torn.own] := by
  obtain ⟨ofItems, ofDecode⟩ := decode_raisedLimit
  obtain ⟨state, decoded⟩ := Torn.exists_state_atLimit
  refine ⟨⟨state, decoded, ofDecode _ _ _ 1000 (by decide) rfl decoded⟩, ?_⟩
  rw [ofItems _ _ 1000 (by decide), Torn.items_atLimit]
  intro e member
  rw [Torn.items_atLimit] at member
  cases List.mem_singleton.mp member

end KeyValue
end PartitionLog
