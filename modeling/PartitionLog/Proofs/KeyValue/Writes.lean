import PartitionLog.KeyValue.Fixture
import PartitionLog.Proofs.Batch.Records
import PartitionLog.Proofs.KeyValue.Replay

/-!
# Writes read back

A batch of writes is read as one entry for each write, at consecutive offsets
(`readBatch_batchOfWrites`).
-/
namespace PartitionLog.KeyValue

theorem StoredKey.run_read_cons (b : UInt8) (buffer : Bytes) :
    StoredKey.read.run (b :: buffer) = (.ok ⟨.ofTag b.toInt8, buffer⟩, []) := by
  rw [StoredKey.read, Reader.run_bind_ok (Reader.run_i8_cons b buffer)]
  rfl

theorem Entry.ofRecord_of_parts {header : BatchHeader} {record : Record} {key : StoredKey}
    {payload : Option Bytes} (keyed : (StoredKey.read.run (record.key.getD [])).1 = .ok key)
    (value : payloadOf record.value = .ok payload) :
    ofRecord header record =
      .ok ⟨key, payload, offsetOf header record, header.firstTimestamp⟩ := by
  rw [ofRecord, keyed, value]
  rfl

theorem decodes_writePayload {payload : Option Bytes}
    (small : ∀ bs ∈ payload, bs.length < 2 ^ 31) :
    readPayload.Decodes (writePayload payload) payload := by
  have decodes := Reader.Decodes.optional (f := id) payload fun bs present =>
    .sizedBytes (small bs present)
  rwa [Option.map_id] at decodes

theorem length_lt_writePayload {payload : Option Bytes} {bs : Bytes} (present : bs ∈ payload) :
    bs.length < (writePayload payload).length := by
  obtain rfl := Option.mem_def.mp present
  have flag : (Wire.bool true).length = 1 := rfl
  rw [writePayload, Wire.optional, Wire.sizedBytes, List.length_append, List.length_append]
  omega

/-! ## One write -/

namespace Write

def storedKey (w : Write) : StoredKey := ⟨.ofTag (w.key.headD 0).toInt8, w.key.tail⟩

def entry (epoch offset : Int64) (w : Write) : Entry := ⟨w.storedKey, w.payload, offset, epoch⟩

theorem ofRecord_toRecord {w : Write} (keyed : w.key ≠ [])
    (small : ∀ bs ∈ w.payload, bs.length < 2 ^ 31) (header : BatchHeader) (index : Nat) :
    Entry.ofRecord header (w.toRecord index) =
      .ok (w.entry header.firstTimestamp (header.baseOffset + Int64.ofNat index)) := by
  obtain ⟨b, buffer, bytes⟩ := List.exists_cons_of_ne_nil keyed
  have key : (StoredKey.read.run w.key).1 = .ok w.storedKey := by
    rw [storedKey, bytes, StoredKey.run_read_cons]
    rfl
  have payload : Entry.payloadOf (w.toRecord index).value = .ok w.payload :=
    congrArg Prod.fst (decodes_writePayload small).run
  exact Entry.ofRecord_of_parts key payload

theorem asWritten_toRecord {w : Write} (keyed : w.key ≠ []) (index : Nat) :
    (w.toRecord index).asWritten = w.toRecord index := by
  have value : writePayload w.payload ≠ [] := by
    cases w.payload <;> simp [writePayload, Wire.optional, Wire.bool]
  change Record.mk _ _ _ _ ((some w.key).filter (· ≠ []))
    ((some (writePayload w.payload)).filter (· ≠ [])) [] = _
  rw [@filter_ne_nil_of_ne (some w.key) keyed,
    @filter_ne_nil_of_ne (some (writePayload w.payload)) value]
  rfl

/-! ## Consecutive writes -/

def entriesFrom (epoch : Int64) : Int64 → List Write → List Entry
  | _, [] => []
  | offset, w :: writes => w.entry epoch offset :: entriesFrom epoch (offset + 1) writes

theorem entriesFrom_append (epoch offset : Int64) (front back : List Write) :
    entriesFrom epoch offset (front ++ back) = entriesFrom epoch offset front ++
      entriesFrom epoch (offset + Int64.ofNat front.length) back := by
  induction front generalizing offset with
  | nil => simp [entriesFrom]
  | cons w front ih =>
    have next : offset + Int64.ofNat (front.length + 1) =
        offset + 1 + Int64.ofNat front.length := by
      rw [Int64.ofNat_add, Int64.add_assoc, Int64.add_comm 1]
      rfl
    rw [List.cons_append, entriesFrom, entriesFrom, ih, List.length_cons, next, List.cons_append]

theorem map_ofRecord_toRecords {writes : List Write} (keyed : ∀ w ∈ writes, w.key ≠ [])
    (small : ∀ w ∈ writes, ∀ bs ∈ w.payload, bs.length < 2 ^ 31) (header : BatchHeader) :
    (toRecords writes).map (Entry.ofRecord header) =
      (entriesFrom header.firstTimestamp header.baseOffset writes).map .ok := by
  have behind (start : Nat) :
      (writes.mapIdx fun index w => w.toRecord (start + index)).map (Entry.ofRecord header) =
        (entriesFrom header.firstTimestamp (header.baseOffset + Int64.ofNat start) writes).map
          .ok := by
    induction writes generalizing start with
    | nil => rfl
    | cons w writes ih =>
      have first := ofRecord_toRecord (keyed w List.mem_cons_self) (small w List.mem_cons_self)
        header start
      have rest := ih (fun w member => keyed w (List.mem_cons_of_mem _ member))
        (fun w member => small w (List.mem_cons_of_mem _ member)) (start + 1)
      have next : header.baseOffset + Int64.ofNat start + 1 =
          header.baseOffset + Int64.ofNat (start + 1) := by
        rw [Int64.ofNat_add, Int64.add_assoc]
        rfl
      rw [List.mapIdx_cons, List.map_cons, entriesFrom, List.map_cons, Nat.add_zero, first, next,
        ← rest]
      simp only [Nat.add_assoc, Nat.add_comm 1]
  have start := behind 0
  simp only [Nat.zero_add] at start
  rw [toRecords, start]
  simp

end Write

/-! ## Batches of writes -/

def draftOfWrites (baseOffset firstTimestamp : Int64) (writes : List Write) : BatchDraft where
  baseOffset := baseOffset
  batchType := storeBatchType
  firstTimestamp := firstTimestamp
  maxTimestamp := firstTimestamp
  records := Write.toRecords writes

theorem batchOfWrites_eq (baseOffset firstTimestamp : Int64) (writes : List Write) :
    batchOfWrites baseOffset firstTimestamp writes =
      (draftOfWrites baseOffset firstTimestamp writes).build := rfl

theorem length_payload_lt {writes : List Write} {w : Write} (member : w ∈ writes) {bs : Bytes}
    (present : bs ∈ w.payload) (baseOffset firstTimestamp : Int64) :
    bs.length < (draftOfWrites baseOffset firstTimestamp writes).region.length := by
  obtain ⟨index, within, rfl⟩ := List.mem_iff_getElem.mp member
  have record : writes[index].toRecord index ∈ Write.toRecords writes :=
    List.mem_mapIdx.mpr ⟨index, within, rfl⟩
  have payload := length_lt_writePayload present
  have value := Record.length_value_lt (r := writes[index].toRecord index) rfl
  have region := length_le_flatMap Record.write record
  exact Nat.lt_of_lt_of_le (Nat.lt_trans payload value) region

theorem asWritten_toRecords {writes : List Write} (keyed : ∀ w ∈ writes, w.key ≠ []) :
    (Write.toRecords writes).map Record.asWritten = Write.toRecords writes := by
  have kept : ∀ r ∈ Write.toRecords writes, r.asWritten = id r := by
    intro r member
    obtain ⟨index, within, rfl⟩ := List.mem_mapIdx.mp member
    exact Write.asWritten_toRecord (keyed _ (List.getElem_mem within)) index
  exact (List.map_congr_left kept).trans (List.map_id _)

namespace Store

/-- The entries of batches of writes, if these are the store's. -/
def ownEntries (store : Store) (entries : List Entry) : List Entry :=
  if storeBatchType = store.config.batchType then entries else []

theorem ownEntries_append (store : Store) (front back : List Entry) :
    store.ownEntries (front ++ back) = store.ownEntries front ++ store.ownEntries back := by
  unfold ownEntries
  split <;> rfl

theorem readBatch_build {store : Store} (path : Path) {draft : BatchDraft}
    (own : draft.batchType = store.config.batchType) (fits : draft.Fits store.config.reader) :
    store.readBatch path draft.build = LogBatch.mk draft.header <$>
      (draft.records.map Record.asWritten).mapM (readRecord draft.header) := by
  have own' : draft.build.header.batchType = store.config.batchType := own
  rw [readBatch, if_neg (not_not_intro own'),
    draft.decodeRecords_build store.config.reader fits.representable]
  rfl

theorem readBatch_batchOfWrites (store : Store) (path : Path) {writes : List Write}
    (keyed : ∀ w ∈ writes, w.key ≠ []) {baseOffset firstTimestamp : Int64}
    (fits : (draftOfWrites baseOffset firstTimestamp writes).Fits store.config.reader) :
    ∃ batch, store.readBatch path (batchOfWrites baseOffset firstTimestamp writes) = .ok batch ∧
      batch.entries store.config =
        store.ownEntries (Write.entriesFrom firstTimestamp baseOffset writes) := by
  have small : ∀ w ∈ writes, ∀ bs ∈ w.payload, bs.length < 2 ^ 31 := by
    intro w member bs present
    have shorter := length_payload_lt member present baseOffset firstTimestamp
    have representable := fits.representable
    rw [Int32.toInt_maxValue] at representable
    omega
  let header := (draftOfWrites baseOffset firstTimestamp writes).header
  unfold ownEntries
  by_cases own : storeBatchType = store.config.batchType
  · obtain ⟨logged, read, entries⟩ :=
      exists_logged (Write.map_ofRecord_toRecords keyed small header)
    refine ⟨⟨header, logged⟩, ?_, ?_⟩
    · rw [batchOfWrites_eq, readBatch_build path own fits]
      exact congrArg _ ((congrArg _ (asWritten_toRecords keyed)).trans read)
    · rw [LogBatch.entries_of_own own, if_pos own]
      exact entries
  · refine ⟨⟨header, []⟩, if_pos own, ?_⟩
    rw [LogBatch.entries_of_foreign own, if_neg own]

end Store
end PartitionLog.KeyValue
