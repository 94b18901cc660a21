import PartitionLog.Batch.Header
import PartitionLog.Batch.Record
import PartitionLog.Snapshot

/-!
# Snapshots of the store

The metadata of a store snapshot are the last offset it covers. The data are one batch behind a
32-bit length, in a form of its own: the header fields, a term, a compression byte, and records
whose sizes are written twice, of which only the second counts.
-/
namespace PartitionLog.KeyValue

structure SnapshotBatch where
  header : BatchHeader
  term : Int64
  compressed : Int8
  records : List Record
  deriving DecidableEq, Repr

structure StoreSnapshot where
  lastOffset : Int64
  batch : SnapshotBatch
  deriving DecidableEq, Repr

namespace SnapshotBatch

/-- Bytes behind two lengths, of which the first is passed over. -/
def readBytes : Reader Bytes := do
  let _ ← Reader.i32
  Reader.sizedBytes

def writeBytes (bs : Bytes) : Bytes := Wire.i32 (Int32.ofNat bs.length) ++ Wire.sizedBytes bs

def readRecordHeader : Reader RecordHeader := do
  let key ← readBytes
  let value ← readBytes
  pure ⟨key, some value⟩

def writeRecordHeader (header : RecordHeader) : Bytes :=
  writeBytes header.key ++ writeBytes (header.value.getD [])

def readRecord : Reader Record := do
  let length ← Reader.u32
  let attributes ← Reader.i8
  let timestampDelta ← Reader.i64
  let offsetDelta ← Reader.i32
  let key ← readBytes
  let value ← readBytes
  let headers ← Reader.vector readRecordHeader
  pure { length := Int64.ofNat length.toNat, attributes, timestampDelta,
         offsetDelta := offsetDelta.toInt64, key := some key, value := some value, headers }

/-- Length and offset delta are cut to 32 bits; what is absent is written as empty. -/
def writeRecord (r : Record) : Bytes :=
  Wire.u32 r.length.toUInt64.toUInt32 ++ Wire.i8 r.attributes ++ Wire.i64 r.timestampDelta ++
  Wire.i32 r.offsetDelta.toInt32 ++ writeBytes (r.key.getD []) ++ writeBytes (r.value.getD []) ++
  Wire.vector writeRecordHeader r.headers

def read : Reader SnapshotBatch := do
  let header ← BatchHeader.read
  let term ← Reader.i64
  let compressed ← Reader.i8
  let records ← Reader.replicate readRecord header.recordCount.toInt.toNat
  pure { header, term, compressed, records }

def writeHeader (h : BatchHeader) : Bytes :=
  Wire.u32 h.headerCrc ++ Wire.i32 h.batchSize ++ Wire.i64 h.baseOffset ++
  Wire.i8 h.batchType ++ Wire.u32 h.crc ++ Wire.i16 h.attrs ++ Wire.i32 h.lastOffsetDelta ++
  Wire.i64 h.firstTimestamp ++ Wire.i64 h.maxTimestamp ++ Wire.i64 h.producerId ++
  Wire.i16 h.producerEpoch ++ Wire.i32 h.baseSequence ++ Wire.i32 h.recordCount

theorem writeHeader_eq (h : BatchHeader) : writeHeader h = h.write := h.write_eq.symm

def write (batch : SnapshotBatch) : Bytes :=
  writeHeader batch.header ++ Wire.i64 batch.term ++ Wire.i8 batch.compressed ++
  batch.records.flatMap writeRecord

end SnapshotBatch

namespace StoreSnapshot

def version : Int8 := 1

def ofSnapshot (snapshot : Snapshot) : Except DecodeError StoreSnapshot := do
  let lastOffset ← (Reader.i64.run snapshot.metadata).1
  let bytes ← (Reader.sizedBytes.run snapshot.data).1
  let batch ← (SnapshotBatch.read.run bytes).1
  pure { lastOffset, batch }

def toSnapshot (s : StoreSnapshot) : Snapshot :=
  .make version (Wire.i64 s.lastOffset) (Wire.sizedBytes s.batch.write)

end StoreSnapshot
end PartitionLog.KeyValue
