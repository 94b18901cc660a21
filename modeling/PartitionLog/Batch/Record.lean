import PartitionLog.Json
import PartitionLog.Reader
import PartitionLog.Wire

/-!
# Records of a batch

A record is a varint length, an attribute byte, two varint deltas, a key, a value and a varint
count of headers. The length covers what follows it; reading takes it as it stands and goes by the
fields, writing always writes the length of the body.

`RecordCursor` steps through a region that should hold a known number of records and stops at the
first that is malformed.
-/
namespace PartitionLog

structure RecordHeader where
  key : Bytes
  value : Option Bytes
  deriving DecidableEq, Repr

structure Record where
  length : Int64
  attributes : Int8
  timestampDelta : Int64
  offsetDelta : Int64
  key : Option Bytes
  value : Option Bytes
  headers : List RecordHeader
  deriving DecidableEq, Repr

namespace RecordHeader

/-- A header without a key has the empty key. -/
def read : Reader RecordHeader := do
  let key ← Reader.nullableBytes
  let value ← Reader.nullableBytes
  pure ⟨key.getD [], value⟩

def write (header : RecordHeader) : Bytes :=
  Wire.nullableBytes (some header.key) ++ Wire.nullableBytes header.value

def toJson (header : RecordHeader) : Json := .obj [
  ("key", .ofBytes header.key),
  ("value", .ofOption Json.ofBytes header.value)]

end RecordHeader

namespace Record

def read : Reader Record := do
  let length ← Reader.varint
  let attributes ← Reader.i8
  let timestampDelta ← Reader.varint
  let offsetDelta ← Reader.varint
  let key ← Reader.nullableBytes
  let value ← Reader.nullableBytes
  let count ← Reader.varint
  let headers ← Reader.replicate RecordHeader.read count.toInt.toNat
  pure { length, attributes, timestampDelta, offsetDelta, key, value, headers }

def body (r : Record) : Bytes :=
  Wire.i8 r.attributes ++ Wire.varint r.timestampDelta ++ Wire.varint r.offsetDelta ++
  Wire.nullableBytes r.key ++ Wire.nullableBytes r.value ++
  Wire.varint (Int64.ofNat r.headers.length) ++ r.headers.flatMap RecordHeader.write

def write (r : Record) : Bytes := Wire.varint (Int64.ofNat r.body.length) ++ r.body

def writtenLength (r : Record) : Nat := Varint.length (Int64.ofNat r.body.length) + r.body.length

theorem length_write (r : Record) : r.write.length = r.writtenLength := by
  simp [write, writtenLength, Wire.varint]

def sized (r : Record) : Record := { r with length := Int64.ofNat r.body.length }

def ofKeyValue (offsetDelta timestampDelta : Int64) (key value : Option Bytes) : Record :=
  sized { length := 0, attributes := 0, timestampDelta, offsetDelta, key, value, headers := [] }

def withHeaders (r : Record) (headers : List RecordHeader) : Record := sized { r with headers }

def toJson (r : Record) : Json := .obj [
  ("length", .num r.length.toInt),
  ("attributes", .num r.attributes.toInt),
  ("timestamp_delta", .num r.timestampDelta.toInt),
  ("offset_delta", .num r.offsetDelta.toInt),
  ("key", .ofOption Json.ofBytes r.key),
  ("value", .ofOption Json.ofBytes r.value),
  ("headers", .ofList RecordHeader.toJson r.headers)]

end Record

/-! ## Stepping through a region -/

structure RecordCursor where
  region : Bytes
  rest : Bytes
  remaining : Nat
  failed : Bool
  deriving DecidableEq, Repr

namespace RecordCursor

def start (region : Bytes) (count : Nat) : RecordCursor := ⟨region, region, count, false⟩

def consumed (cursor : RecordCursor) : Nat := cursor.region.length - cursor.rest.length

def unconsumed (cursor : RecordCursor) : Nat := cursor.rest.length

def bound (cursor : RecordCursor) : Nat := if cursor.failed then 0 else cursor.remaining

def next (cursor : RecordCursor) : Option (Except DecodeError Record) × RecordCursor :=
  if cursor.remaining = 0 ∨ cursor.failed then (none, cursor)
  else
    let remaining := cursor.remaining - 1
    match Record.read.run cursor.rest with
    | (.ok record, rest) => (some (.ok record), { cursor with rest, remaining })
    | (.error e, rest) => (some (.error e), { cursor with rest, remaining, failed := true })

def itemsWithin : Nat → RecordCursor → List (Except DecodeError Record)
  | 0, _ => []
  | n + 1, cursor =>
    match cursor.next with
    | (none, _) => []
    | (some item, cursor) => item :: itemsWithin n cursor

def items (cursor : RecordCursor) : List (Except DecodeError Record) :=
  itemsWithin cursor.bound cursor

end RecordCursor
end PartitionLog
