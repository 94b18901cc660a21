import PartitionLog.Batch.Basic
import PartitionLog.ByteStream

/-!
# Reading batches from a stream

The data end where the stream does, inside a header, inside the bytes of the records, or at a
header of zeros: a write may have been torn, and space is allocated ahead. A batch that is there in
full has to be right. Whether it is there in full is decided first, so a short body ends the data
even behind a damaged header; no more than one byte past the size limit is read for that.
-/
namespace PartitionLog.Batch

def accept (config : ReaderConfig) (batch : Batch) : Except BatchError Batch :=
  if batch.header.computedHeaderCrc ≠ batch.header.headerCrc then
    .error (.headerCrcMismatch batch.header.computedHeaderCrc { batch with records := [] })
  else
    match batch.header.recordsSize with
    | none => .error (.invalidBatchSize batch.header.baseOffset batch.header.batchSize)
    | some size =>
      if config.maxBatchSize < size then
        .error (.invalidBatchSize batch.header.baseOffset batch.header.batchSize)
      else if batch.header.computedCrc batch.records ≠ batch.header.crc then
        .error (.bodyCrcMismatch (batch.header.computedCrc batch.records) batch)
      else .ok batch

def bodyLimit (config : ReaderConfig) (header : BatchHeader) : Nat :=
  min (header.recordsSize.getD 0) (config.maxBatchSize + 1)

def readBody (config : ReaderConfig) (index filePosition : Nat) (header : BatchHeader)
    (stream : ByteStream) : Except BatchError (Option Batch) × ByteStream :=
  match stream.takeUpTo (bodyLimit config header) with
  | (.error e, rest) => (.error (.io e), rest)
  | (.ok records, rest) =>
    if records.length < bodyLimit config header then (.ok none, rest)
    else ((accept config { header, records, index, filePosition }).map some, rest)

def readNext (config : ReaderConfig) (index filePosition : Nat) (stream : ByteStream) :
    Except BatchError (Option Batch) × ByteStream :=
  match stream.fill BatchHeader.size with
  | (.error e, rest) => (.error (.io e), rest)
  | (.ok bytes, rest) =>
    if bytes.length < BatchHeader.size then (.ok none, rest)
    else if (BatchHeader.ofBytes bytes).isZeroed then (.ok none, rest)
    else readBody config index filePosition (BatchHeader.ofBytes bytes) rest

end PartitionLog.Batch
