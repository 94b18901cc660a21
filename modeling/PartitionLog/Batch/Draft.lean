import PartitionLog.Batch.Basic

/-!
# Making batches

A draft is a batch to be: the header fields that are free to choose, and the records. `build`
fills in what follows from them: counts, sizes and checksums.
-/
namespace PartitionLog

structure BatchDraft where
  baseOffset : Int64
  batchType : Int8
  firstTimestamp : Int64 := 0
  maxTimestamp : Int64 := 0
  attrs : Int16 := 0
  producerId : Int64 := -1
  producerEpoch : Int16 := -1
  baseSequence : Int32 := -1
  records : List Record := []
  deriving DecidableEq, Repr

namespace BatchDraft

def push (draft : BatchDraft) (record : Record) : BatchDraft :=
  { draft with records := draft.records ++ [record] }

def pushKeyValue (draft : BatchDraft) (key value : Option Bytes) : BatchDraft :=
  draft.push (.ofKeyValue (Int64.ofNat draft.records.length) 0 key value)

def region (draft : BatchDraft) : Bytes := draft.records.flatMap Record.write

def lastOffsetDelta (draft : BatchDraft) : Int32 :=
  (draft.records.map fun record => record.offsetDelta.toInt32).max?.getD 0

def unsealed (draft : BatchDraft) : BatchHeader where
  batchSize := Int32.ofNat (BatchHeader.size + draft.region.length)
  baseOffset := draft.baseOffset
  batchType := draft.batchType
  attrs := draft.attrs
  lastOffsetDelta := draft.lastOffsetDelta
  firstTimestamp := draft.firstTimestamp
  maxTimestamp := draft.maxTimestamp
  producerId := draft.producerId
  producerEpoch := draft.producerEpoch
  baseSequence := draft.baseSequence
  recordCount := Int32.ofNat draft.records.length

/-- The header checksum covers the other one, so it comes last. -/
def header (draft : BatchDraft) : BatchHeader :=
  let checked := { draft.unsealed with crc := draft.unsealed.computedCrc draft.region }
  { checked with headerCrc := checked.computedHeaderCrc }

def build (draft : BatchDraft) : Batch where
  header := draft.header
  records := draft.region

end BatchDraft
end PartitionLog
