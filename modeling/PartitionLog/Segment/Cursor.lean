import PartitionLog.Batch.Stream

/-!
# Batches of a segment, one after another

The cursor counts the batches and knows where the next one starts. It stops at the end of the data
and at the first error, for good.
-/
namespace PartitionLog

structure BatchCursor where
  config : ReaderConfig
  stream : ByteStream
  batchesRead : Nat := 0
  position : Nat := 0
  done : Bool := false
  deriving DecidableEq, Repr

namespace BatchCursor

def next (cursor : BatchCursor) : Option (Except BatchError Batch) × BatchCursor :=
  if cursor.done then (none, cursor)
  else
    match Batch.readNext cursor.config cursor.batchesRead cursor.position cursor.stream with
    | (.ok (some batch), stream) =>
      (some (.ok batch), { cursor with
        stream
        batchesRead := cursor.batchesRead + 1
        position := cursor.position + batch.header.batchSize.toInt.toNat })
    | (.ok none, stream) => (none, { cursor with stream, done := true })
    | (.error e, stream) => (some (.error e), { cursor with stream, done := true })

def itemsWithin : Nat → BatchCursor → List (Except BatchError Batch)
  | 0, _ => []
  | n + 1, cursor =>
    match cursor.next with
    | (none, _) => []
    | (some item, cursor) => item :: itemsWithin n cursor

/-- Every item still to come: a batch takes at least a byte, and one error may follow. -/
def items (cursor : BatchCursor) : List (Except BatchError Batch) :=
  itemsWithin (cursor.stream.contents.length + 1) cursor

def readAll (cursor : BatchCursor) : Except BatchError (List Batch) := cursor.items.mapM id

end BatchCursor
end PartitionLog
