import PartitionLog.Checksum
import PartitionLog.Json
import PartitionLog.Reader
import PartitionLog.Wire

/-!
# Batch headers

A batch starts with 61 bytes, all fields little-endian:

| field               | bytes | field              | bytes |
|---------------------|-------|--------------------|-------|
| header checksum     | 4     | first timestamp    | 8     |
| batch size          | 4     | max timestamp      | 8     |
| base offset         | 8     | producer id        | 8     |
| batch type          | 1     | producer epoch     | 2     |
| checksum            | 4     | base sequence      | 4     |
| attributes          | 2     | record count       | 4     |
| last offset delta   | 4     |                    |       |

The header checksum covers the 57 bytes behind it as they stand. The other checksum covers the
fields from the attributes on, each big-endian, and then the bytes of the records: clients compute
it over their own form of the batch.
-/
namespace PartitionLog

structure BatchHeader where
  headerCrc : UInt32 := 0
  batchSize : Int32 := 0
  baseOffset : Int64 := 0
  batchType : Int8 := 0
  crc : UInt32 := 0
  attrs : Int16 := 0
  lastOffsetDelta : Int32 := 0
  firstTimestamp : Int64 := 0
  maxTimestamp : Int64 := 0
  producerId : Int64 := 0
  producerEpoch : Int16 := 0
  baseSequence : Int32 := 0
  recordCount : Int32 := 0
  deriving DecidableEq, Repr

namespace BatchHeader

def size : Nat := 61

def clientRegionSize : Nat := 40

def read : Reader BatchHeader := do
  let headerCrc ← Reader.u32
  let batchSize ← Reader.i32
  let baseOffset ← Reader.i64
  let batchType ← Reader.i8
  let crc ← Reader.u32
  let attrs ← Reader.i16
  let lastOffsetDelta ← Reader.i32
  let firstTimestamp ← Reader.i64
  let maxTimestamp ← Reader.i64
  let producerId ← Reader.i64
  let producerEpoch ← Reader.i16
  let baseSequence ← Reader.i32
  let recordCount ← Reader.i32
  pure { headerCrc, batchSize, baseOffset, batchType, crc, attrs, lastOffsetDelta, firstTimestamp,
         maxTimestamp, producerId, producerEpoch, baseSequence, recordCount }

def numberAt (bytes : Bytes) (start width : Nat) : Nat :=
  Bytes.ofLittleEndian ((bytes.drop start).take width)

def ofBytes (bytes : Bytes) : BatchHeader where
  headerCrc := UInt32.ofNat (numberAt bytes 0 4)
  batchSize := (UInt32.ofNat (numberAt bytes 4 4)).toInt32
  baseOffset := (UInt64.ofNat (numberAt bytes 8 8)).toInt64
  batchType := (UInt8.ofNat (numberAt bytes 16 1)).toInt8
  crc := UInt32.ofNat (numberAt bytes 17 4)
  attrs := (UInt16.ofNat (numberAt bytes 21 2)).toInt16
  lastOffsetDelta := (UInt32.ofNat (numberAt bytes 23 4)).toInt32
  firstTimestamp := (UInt64.ofNat (numberAt bytes 27 8)).toInt64
  maxTimestamp := (UInt64.ofNat (numberAt bytes 35 8)).toInt64
  producerId := (UInt64.ofNat (numberAt bytes 43 8)).toInt64
  producerEpoch := (UInt16.ofNat (numberAt bytes 51 2)).toInt16
  baseSequence := (UInt32.ofNat (numberAt bytes 53 4)).toInt32
  recordCount := (UInt32.ofNat (numberAt bytes 57 4)).toInt32

/-- Every field in its place in a buffer of zeros. -/
def write (h : BatchHeader) : Bytes :=
  List.replicate size 0
    |> Bytes.put 0 (Wire.u32 h.headerCrc)
    |> Bytes.put 4 (Wire.i32 h.batchSize)
    |> Bytes.put 8 (Wire.i64 h.baseOffset)
    |> Bytes.put 16 (Wire.i8 h.batchType)
    |> Bytes.put 17 (Wire.u32 h.crc)
    |> Bytes.put 21 (Wire.i16 h.attrs)
    |> Bytes.put 23 (Wire.i32 h.lastOffsetDelta)
    |> Bytes.put 27 (Wire.i64 h.firstTimestamp)
    |> Bytes.put 35 (Wire.i64 h.maxTimestamp)
    |> Bytes.put 43 (Wire.i64 h.producerId)
    |> Bytes.put 51 (Wire.i16 h.producerEpoch)
    |> Bytes.put 53 (Wire.i32 h.baseSequence)
    |> Bytes.put 57 (Wire.i32 h.recordCount)

/-- The fields follow one another without a gap. -/
theorem write_eq (h : BatchHeader) :
    h.write =
      Wire.u32 h.headerCrc ++ Wire.i32 h.batchSize ++ Wire.i64 h.baseOffset ++
      Wire.i8 h.batchType ++ Wire.u32 h.crc ++ Wire.i16 h.attrs ++ Wire.i32 h.lastOffsetDelta ++
      Wire.i64 h.firstTimestamp ++ Wire.i64 h.maxTimestamp ++ Wire.i64 h.producerId ++
      Wire.i16 h.producerEpoch ++ Wire.i32 h.baseSequence ++ Wire.i32 h.recordCount := by
  simp only [write, size, Bytes.put_zero_replicate, Bytes.put_replicate, List.length_append,
    Wire.length_u32, Wire.length_i8, Wire.length_i16, Wire.length_i32, Wire.length_i64,
    Nat.reduceAdd, Nat.reduceSub, List.replicate_zero, List.append_nil]

@[simp] theorem length_write (h : BatchHeader) : h.write.length = size := by
  simp [write_eq, size]

/-- What the header checksum covers. -/
def checkedBytes (h : BatchHeader) : Bytes := h.write.drop 4

theorem checkedBytes_eq (h : BatchHeader) :
    h.checkedBytes =
      Wire.i32 h.batchSize ++ Wire.i64 h.baseOffset ++ Wire.i8 h.batchType ++ Wire.u32 h.crc ++
      Wire.i16 h.attrs ++ Wire.i32 h.lastOffsetDelta ++ Wire.i64 h.firstTimestamp ++
      Wire.i64 h.maxTimestamp ++ Wire.i64 h.producerId ++ Wire.i16 h.producerEpoch ++
      Wire.i32 h.baseSequence ++ Wire.i32 h.recordCount := by
  rw [checkedBytes, write_eq]
  simp only [List.append_assoc]
  exact List.drop_left' (Wire.length_u32 _)

theorem write_eq_checkedBytes (h : BatchHeader) :
    h.write = Wire.u32 h.headerCrc ++ h.checkedBytes := by
  rw [write_eq, checkedBytes_eq]
  simp only [List.append_assoc]

def clientRegion (h : BatchHeader) : Bytes :=
  Bytes.bigEndian 2 h.attrs.toUInt16.toNat ++
  Bytes.bigEndian 4 h.lastOffsetDelta.toUInt32.toNat ++
  Bytes.bigEndian 8 h.firstTimestamp.toUInt64.toNat ++
  Bytes.bigEndian 8 h.maxTimestamp.toUInt64.toNat ++
  Bytes.bigEndian 8 h.producerId.toUInt64.toNat ++
  Bytes.bigEndian 2 h.producerEpoch.toUInt16.toNat ++
  Bytes.bigEndian 4 h.baseSequence.toUInt32.toNat ++
  Bytes.bigEndian 4 h.recordCount.toUInt32.toNat

@[simp] theorem length_clientRegion (h : BatchHeader) :
    h.clientRegion.length = clientRegionSize := by
  simp [clientRegion, clientRegionSize]

def computedHeaderCrc (h : BatchHeader) : UInt32 := Checksum.crc32c h.checkedBytes

def computedCrc (h : BatchHeader) (records : Bytes) : UInt32 :=
  Checksum.extend (Checksum.crc32c h.clientRegion) records

/-- Preallocated space reads as a header of zeros. -/
def isZeroed (h : BatchHeader) : Bool := h = {}

def recordsSize (h : BatchHeader) : Option Nat :=
  if h.batchSize.toInt < size then none else some (h.batchSize.toInt - size).toNat

/-- The offset of the last record if no offset is missing. -/
def lastOffset (h : BatchHeader) : Int64 := h.baseOffset + h.recordCount.toInt64 - 1

/-! ## Attributes -/

def compressionMask : Int16 := 0x07
def timestampTypeFlag : Int16 := 0x08
def transactionalFlag : Int16 := 0x10
def controlFlag : Int16 := 0x20

def compression (h : BatchHeader) : Int16 := h.attrs &&& compressionMask
def isTransactional (h : BatchHeader) : Bool := h.attrs &&& transactionalFlag ≠ 0
def isControl (h : BatchHeader) : Bool := h.attrs &&& controlFlag ≠ 0

def toJson (h : BatchHeader) : Json := .obj [
  ("header_crc", .ofNat h.headerCrc.toNat),
  ("batch_size", .num h.batchSize.toInt),
  ("base_offset", .num h.baseOffset.toInt),
  ("batch_type", .num h.batchType.toInt),
  ("crc", .ofNat h.crc.toNat),
  ("attrs", .num h.attrs.toInt),
  ("last_offset_delta", .num h.lastOffsetDelta.toInt),
  ("first_timestamp", .num h.firstTimestamp.toInt),
  ("max_timestamp", .num h.maxTimestamp.toInt),
  ("producer_id", .num h.producerId.toInt),
  ("producer_epoch", .num h.producerEpoch.toInt),
  ("base_sequence", .num h.baseSequence.toInt),
  ("record_count", .num h.recordCount.toInt)]

end BatchHeader
end PartitionLog
