import PartitionLog.Bytes
import PartitionLog.IoError

/-!
# Byte streams

A stream hands out its bytes in deliveries of any size, and one call gives no more than the next of
them. `fill` and `takeUpTo` ask until they have what they want: an interrupted delivery is asked for
again, a failed one fails the read. What they take does not depend on how the bytes are cut.
-/
namespace PartitionLog

inductive Delivery
  /-- At least one byte. -/
  | data (first : UInt8) (more : Bytes)
  | interrupted
  | failed (cause : IoError)
  deriving DecidableEq, Repr

abbrev ByteStream := List Delivery

/-- The answer to one call. -/
inductive Answer
  /-- No bytes stand for the end of the stream. -/
  | bytes (bs : Bytes)
  | interrupted
  | failed (cause : IoError)
  deriving DecidableEq, Repr

namespace ByteStream

def ofBytes : Bytes → ByteStream
  | [] => []
  | b :: bs => [.data b bs]

def contents : ByteStream → Bytes
  | [] => []
  | .data b bs :: stream => b :: bs ++ contents stream
  | _ :: stream => contents stream

/-- One call for at most `room` bytes. What does not fit of a delivery is left for the next call. -/
def read (room : Nat) : ByteStream → Answer × ByteStream
  | [] => (.bytes [], [])
  | .interrupted :: stream => (.interrupted, stream)
  | .failed cause :: stream => (.failed cause, stream)
  | .data b bs :: stream =>
    match (b :: bs).drop room with
    | [] => (.bytes (b :: bs), stream)
    | b' :: bs' => (.bytes ((b :: bs).take room), .data b' bs' :: stream)

def fillWithin : Nat → Nat → ByteStream → Except IoError Bytes × ByteStream
  | 0, _, stream => (.ok [], stream)
  | calls + 1, room, stream =>
    if room = 0 then (.ok [], stream)
    else
      match stream.read room with
      | (.bytes [], rest) => (.ok [], rest)
      | (.bytes (b :: bs), rest) =>
        let (result, rest) := fillWithin calls (room - (bs.length + 1)) rest
        (result.map (b :: bs ++ ·), rest)
      | (.interrupted, rest) => fillWithin calls room rest
      | (.failed cause, rest) => (.error cause, rest)

/-- Calls for what is missing until `room` bytes are there or the stream ends. Every call but the
last takes a delivery off the stream. -/
def fill (room : Nat) (stream : ByteStream) : Except IoError Bytes × ByteStream :=
  fillWithin (stream.length + 1) room stream

/-- All bytes up to `limit` or the end, as reading to the end of a limited stream gives them. -/
def takeUpTo : Nat → ByteStream → Except IoError Bytes × ByteStream
  | 0, stream => (.ok [], stream)
  | _ + 1, [] => (.ok [], [])
  | limit + 1, .interrupted :: stream => takeUpTo (limit + 1) stream
  | _ + 1, .failed cause :: stream => (.error cause, stream)
  | limit + 1, .data b bs :: stream =>
    match bs.drop limit with
    | [] =>
      let (result, rest) := takeUpTo (limit - bs.length) stream
      (result.map (b :: bs ++ ·), rest)
    | b' :: bs' => (.ok (b :: bs.take limit), .data b' bs' :: stream)

@[simp] theorem contents_ofBytes (bs : Bytes) : contents (ofBytes bs) = bs := by
  cases bs <;> simp [ofBytes, contents]

end ByteStream
end PartitionLog
