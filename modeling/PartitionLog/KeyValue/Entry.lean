import PartitionLog.Batch.Record
import PartitionLog.Batch.Header
import PartitionLog.KeyValue.KeySpace
import PartitionLog.Timestamp

/-!
# Entries

A record of the key-value store: its key is the byte of a space and the bytes of the key, its value
an optional payload. An entry without a payload leaves the value of its key as it is.
-/
namespace PartitionLog.KeyValue

structure Entry where
  key : StoredKey
  payload : Option Bytes
  offset : Int64
  epoch : Int64
  deriving DecidableEq, Repr

def StoredKey.read : Reader StoredKey := do
  let tag ← Reader.i8
  let buffer ← Reader.rest
  pure ⟨.ofTag tag, buffer⟩

def StoredKey.write (key : StoredKey) : Bytes := Wire.i8 key.space.tag ++ key.buffer

def readPayload : Reader (Option Bytes) := Reader.optional Reader.sizedBytes

def writePayload (payload : Option Bytes) : Bytes := Wire.optional Wire.sizedBytes payload

namespace Entry

def payloadOf : Option Bytes → Except DecodeError (Option Bytes)
  | none => .ok none
  | some value => (readPayload.run value).1

def offsetOf (header : BatchHeader) (record : Record) : Int64 :=
  header.baseOffset + record.offsetDelta

def ofRecord (header : BatchHeader) (record : Record) : Except DecodeError Entry := do
  let key ← (StoredKey.read.run (record.key.getD [])).1
  let payload ← payloadOf record.value
  pure { key, payload, offset := offsetOf header record, epoch := header.firstTimestamp }

def timestamp (entry : Entry) : String := Timestamp.format entry.epoch

def toJson (entry : Entry) : Json := .obj [
  ("keyspace", .str entry.key.space.name),
  ("key_buf", .hex entry.key.buffer),
  ("data", .ofOption Json.hex entry.payload),
  ("offset", .num entry.offset.toInt),
  ("epoch", .num entry.epoch.toInt),
  ("ts", .str entry.timestamp)]

end Entry
end PartitionLog.KeyValue
