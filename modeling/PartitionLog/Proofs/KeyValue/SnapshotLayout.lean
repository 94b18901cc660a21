import PartitionLog.KeyValue.Snapshot
import PartitionLog.Proofs.Batch.HeaderLayout
import PartitionLog.Proofs.Snapshot

/-!
# Snapshots of a store read back

A snapshot comes back from its file (`file_readBack`), with records that know no absence: a key or a
value that was absent is there then, without any bytes in it. Lengths and offset deltas beyond 32
bits come back cut (`ofSnapshot_toSnapshot`).
-/
namespace PartitionLog.KeyValue
open Reader (Decodes)

theorem toInt64_toInt32 {delta : Int64} (least : Int32.minValue.toInt ≤ delta.toInt)
    (most : delta.toInt ≤ Int32.maxValue.toInt) : delta.toInt32.toInt64 = delta := by
  rw [Int32.toInt_minValue] at least
  rw [Int32.toInt_maxValue] at most
  rw [← Int64.toInt_inj, Int32.toInt_toInt64, Int64.toInt_toInt32]
  exact Int.bmod_eq_of_le (by omega) (by omega)

theorem ofNat_toUInt32 {length : Int64} (least : 0 ≤ length.toInt)
    (most : length.toInt < UInt32.size) : Int64.ofNat length.toUInt64.toUInt32.toNat = length := by
  simp only [UInt32.size] at most
  have whole : length.toUInt64.toNat = length.toInt.toNat :=
    Int64.toNat_toUInt64_of_le (Int64.le_iff_toInt_le.mpr least)
  have cut : length.toUInt64.toUInt32.toNat = length.toInt.toNat := by
    rw [UInt64.toNat_toUInt32, whole]
    omega
  rw [cut, ← Int64.toInt_inj, Int64.toInt_ofNat_of_lt (by omega)]
  omega

namespace SnapshotBatch

def keptHeader (header : RecordHeader) : RecordHeader :=
  { header with value := some (header.value.getD []) }

def keptRecord (r : Record) : Record where
  length := Int64.ofNat r.length.toUInt64.toUInt32.toNat
  attributes := r.attributes
  timestampDelta := r.timestampDelta
  offsetDelta := r.offsetDelta.toInt32.toInt64
  key := some (r.key.getD [])
  value := some (r.value.getD [])
  headers := r.headers.map keptHeader

def kept (batch : SnapshotBatch) : SnapshotBatch :=
  { batch with records := batch.records.map keptRecord }

/-- Length and offset delta are within the 32 bits that a snapshot has for them. -/
structure Narrow (r : Record) : Prop where
  length : 0 ≤ r.length.toInt ∧ r.length.toInt < UInt32.size
  offsetDelta : Int32.minValue.toInt ≤ r.offsetDelta.toInt ∧
    r.offsetDelta.toInt ≤ Int32.maxValue.toInt

/-- The record with bytes, perhaps none, wherever they may be absent. -/
def presentRecord (r : Record) : Record :=
  { r with
    key := some (r.key.getD [])
    value := some (r.value.getD [])
    headers := r.headers.map fun header => { header with value := some (header.value.getD []) } }

theorem Narrow.keptRecord_eq {r : Record} (narrow : Narrow r) :
    keptRecord r = presentRecord r := by
  have length : Int64.ofNat r.length.toUInt64.toUInt32.toNat = r.length :=
    ofNat_toUInt32 narrow.length.1 narrow.length.2
  have delta := toInt64_toInt32 narrow.offsetDelta.1 narrow.offsetDelta.2
  rw [keptRecord, length, delta]
  rfl

theorem kept_eq {batch : SnapshotBatch} (narrow : ∀ r ∈ batch.records, Narrow r) :
    batch.kept = { batch with records := batch.records.map presentRecord } := by
  rw [kept, List.map_congr_left fun r member => (narrow r member).keptRecord_eq]

theorem length_writeBytes (bs : Bytes) : (writeBytes bs).length = bs.length + 8 := by
  simp [writeBytes, Wire.sizedBytes, Wire.i32, Wire.u32]
  omega

theorem decodes_writeBytes (bs : Bytes) (small : bs.length < 2 ^ 31) :
    readBytes.Decodes (writeBytes bs) bs :=
  (Decodes.i32 _).bind (Decodes.sizedBytes small)

theorem decodes_writeRecordHeader {header : RecordHeader}
    (small : (writeRecordHeader header).length < 2 ^ 31) :
    readRecordHeader.Decodes (writeRecordHeader header) (keptHeader header) := by
  simp only [writeRecordHeader, List.length_append, length_writeBytes] at small
  have key := decodes_writeBytes header.key (by omega)
  have value := decodes_writeBytes (header.value.getD []) (by omega)
  exact key.bind (value.bind_pure _)

theorem decodes_writeRecord {r : Record} (small : (writeRecord r).length < 2 ^ 31) :
    readRecord.Decodes (writeRecord r) (keptRecord r) := by
  simp only [writeRecord, Wire.vector, List.length_append, length_writeBytes] at small
  have key := decodes_writeBytes (r.key.getD []) (by omega)
  have value := decodes_writeBytes (r.value.getD []) (by omega)
  have header : ∀ header ∈ r.headers,
      readRecordHeader.Decodes (writeRecordHeader header) (keptHeader header) := by
    intro header member
    have shorter := length_le_flatMap writeRecordHeader member
    exact decodes_writeRecordHeader (by omega)
  have count : r.headers.length < 2 ^ 31 := by
    have fewer : r.headers.length ≤ (r.headers.flatMap writeRecordHeader).length := by
      apply count_le_flatMap
      intro header _
      rw [writeRecordHeader, List.length_append, length_writeBytes]
      omega
    omega
  refine .of_eq ?_ <| (Decodes.u32 r.length.toUInt64.toUInt32).bind <|
    (Decodes.i8 r.attributes).bind <| (Decodes.i64 r.timestampDelta).bind <|
    (Decodes.i32 r.offsetDelta.toInt32).bind <| key.bind <| value.bind <|
    (Decodes.vector count header).bind_pure _
  simp only [writeRecord, List.append_assoc]

theorem decodes_write {batch : SnapshotBatch}
    (counted : batch.header.recordCount.toInt.toNat = batch.records.length)
    (small : batch.write.length < 2 ^ 31) : read.Decodes batch.write batch.kept := by
  have each : ∀ r ∈ batch.records, readRecord.Decodes (writeRecord r) (keptRecord r) := by
    intro r member
    have shorter := length_le_flatMap writeRecord member
    simp only [write, List.length_append] at small
    exact decodes_writeRecord (by omega)
  refine .of_eq ?_ <| batch.header.decodes_write.bind <| (Decodes.i64 batch.term).bind <|
    (Decodes.i8 batch.compressed).bind <| (Decodes.replicate _ counted each).bind_pure _
  simp only [write, writeHeader_eq, List.append_assoc]

end SnapshotBatch

namespace StoreSnapshot

theorem ofSnapshot_toSnapshot {s : StoreSnapshot}
    (counted : s.batch.header.recordCount.toInt.toNat = s.batch.records.length)
    (small : s.batch.write.length < 2 ^ 31) :
    ofSnapshot s.toSnapshot = .ok { s with batch := s.batch.kept } := by
  have lastOffset : (Reader.i64.run s.toSnapshot.metadata).1 = .ok s.lastOffset :=
    congrArg Prod.fst (Decodes.i64 s.lastOffset).run
  have bytes : (Reader.sizedBytes.run s.toSnapshot.data).1 = .ok s.batch.write :=
    congrArg Prod.fst (Decodes.sizedBytes small).run
  have batch : (SnapshotBatch.read.run s.batch.write).1 = .ok s.batch.kept :=
    congrArg Prod.fst (SnapshotBatch.decodes_write counted small).run
  simp only [ofSnapshot, lastOffset, bytes, bind, Except.bind, batch]
  rfl

theorem ofBytes_write_toSnapshot (s : StoreSnapshot) :
    Snapshot.ofBytes s.toSnapshot.write = .ok s.toSnapshot :=
  Snapshot.ofBytes_write_make _ _ (by simp [Wire.i64, Wire.u64])

theorem file_readBack {s : StoreSnapshot}
    (counted : s.batch.header.recordCount.toInt = s.batch.records.length)
    (narrow : ∀ r ∈ s.batch.records, SnapshotBatch.Narrow r)
    (small : s.batch.write.length ≤ Int32.maxValue.toInt) :
    ∃ snapshot, Snapshot.ofBytes s.toSnapshot.write = .ok snapshot ∧ snapshot.verify = .ok () ∧
      ofSnapshot snapshot = .ok { s with
        batch := { s.batch with records := s.batch.records.map SnapshotBatch.presentRecord } } := by
  have count : s.batch.header.recordCount.toInt.toNat = s.batch.records.length := by
    rw [counted, Int.toNat_natCast]
  have limit : s.batch.write.length < 2 ^ 31 := by
    rw [Int32.toInt_maxValue] at small
    omega
  refine ⟨s.toSnapshot, s.ofBytes_write_toSnapshot, Snapshot.verify_make _ _ _, ?_⟩
  rw [ofSnapshot_toSnapshot count limit, SnapshotBatch.kept_eq narrow]

/-! ## Records with and without bytes -/

namespace ReadBack

def full : Record where
  length := 4294967295
  attributes := -1
  timestampDelta := -5
  offsetDelta := -2147483648
  key := some [1, 2]
  value := some [3]
  headers := [⟨[4], some [5, 6]⟩, ⟨[], none⟩]

def bare : Record where
  length := 0
  attributes := 0
  timestampDelta := 0
  offsetDelta := 2147483647
  key := none
  value := none
  headers := []

def snapshot : StoreSnapshot where
  lastOffset := -1
  batch := {
    header :=
      { headerCrc := 7, batchSize := -1, baseOffset := 9, producerEpoch := -3, recordCount := 2 }
    term := 3
    compressed := 1
    records := [full, bare] }

theorem narrow : ∀ r ∈ snapshot.batch.records, SnapshotBatch.Narrow r := by
  intro r member
  cases List.mem_cons.mp member with
  | inl first =>
    rw [first]
    exact ⟨by decide, by decide⟩
  | inr second =>
    rw [List.mem_singleton.mp second]
    exact ⟨by decide, by decide⟩

end ReadBack

set_option maxRecDepth 20000 in
theorem file_readBack_absent :
    ∃ snapshot, Snapshot.ofBytes ReadBack.snapshot.toSnapshot.write = .ok snapshot ∧
      snapshot.verify = .ok () ∧
      ofSnapshot snapshot = .ok { ReadBack.snapshot with
        batch := { ReadBack.snapshot.batch with records := [
          { ReadBack.full with headers := [⟨[4], some [5, 6]⟩, ⟨[], some []⟩] },
          { ReadBack.bare with key := some [], value := some [] }] } } :=
  file_readBack rfl ReadBack.narrow (by decide)

end StoreSnapshot
end PartitionLog.KeyValue
