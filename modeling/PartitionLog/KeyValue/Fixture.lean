import PartitionLog.Batch.Draft
import PartitionLog.KeyValue.Entry
import PartitionLog.KeyValue.Key
import PartitionLog.KeyValue.Snapshot
import PartitionLog.KeyValue.Store

/-!
# Making stores

A write is a full key and a payload, or none. Batches and snapshots of the store hold writes at
consecutive offsets.
-/
namespace PartitionLog.KeyValue

structure Write where
  key : Bytes
  payload : Option Bytes
  deriving DecidableEq, Repr

namespace Write

def put (key : Key) (payload : Bytes) : Write := ⟨key.write, some payload⟩

def absent (key : Key) : Write := ⟨key.write, none⟩

def toRecord (index : Nat) (w : Write) : Record :=
  .ofKeyValue (Int64.ofNat index) 0 (some w.key) (some (writePayload w.payload))

def toRecords (writes : List Write) : List Record := writes.mapIdx toRecord

end Write

def batchOfWrites (baseOffset firstTimestamp : Int64) (writes : List Write) : Batch :=
  BatchDraft.build {
    baseOffset
    batchType := storeBatchType
    firstTimestamp
    maxTimestamp := firstTimestamp
    records := Write.toRecords writes }

def snapshotOfWrites (lastOffset baseOffset : Int64) (writes : List Write) : StoreSnapshot where
  lastOffset := lastOffset
  batch := {
    header := {
      baseOffset
      batchType := storeBatchType
      recordCount := Int32.ofNat writes.length
      lastOffsetDelta := Int32.ofNat (writes.length - 1) }
    term := 1
    compressed := 0
    records := Write.toRecords writes }

end PartitionLog.KeyValue
