import PartitionLog.Batch.Record
import PartitionLog.IoError
import PartitionLog.ReaderConfig

/-!
# Batches

A batch is a header and the bytes of its records, with its place in the segment it was read from.
Its records are parsed on demand.
-/
namespace PartitionLog

structure Batch where
  header : BatchHeader
  records : Bytes
  index : Nat := 0
  filePosition : Nat := 0
  deriving DecidableEq, Repr

inductive BatchError
  /-- The batch is the one at fault, without its records when it was found on reading. -/
  | headerCrcMismatch (computed : UInt32) (batch : Batch)
  | bodyCrcMismatch (computed : UInt32) (batch : Batch)
  | invalidBatchSize (baseOffset : Int64) (batchSize : Int32)
  | malformedRecord (baseOffset : Int64) (cause : DecodeError)
  | recordAccounting (baseOffset : Int64) (expected consumed : Nat)
  | io (cause : IoError)
  deriving DecidableEq, Repr

namespace BatchError

def message : BatchError → String
  | headerCrcMismatch computed batch =>
    "Corrupt batch at offset " ++ batch.header.baseOffset.toInt.repr ++ ": header crc stored=" ++
      Bytes.hexWord batch.header.headerCrc ++ ", computed=" ++ Bytes.hexWord computed
  | bodyCrcMismatch computed batch =>
    "Corrupt batch at offset " ++ batch.header.baseOffset.toInt.repr ++ ": crc stored=" ++
      Bytes.hexWord batch.header.crc ++ ", computed=" ++ Bytes.hexWord computed
  | invalidBatchSize baseOffset batchSize =>
    "Invalid batch size " ++ batchSize.toInt.repr ++ " at offset " ++ baseOffset.toInt.repr
  | malformedRecord baseOffset cause =>
    "Malformed record in batch at offset " ++ baseOffset.toInt.repr ++ ": " ++ cause.message
  | recordAccounting baseOffset expected consumed =>
    "Records of batch at offset " ++ baseOffset.toInt.repr ++ " consumed " ++ consumed.repr ++
      " of " ++ expected.repr ++ " bytes"
  | io cause => "I/O error: " ++ cause.message

/-- The messages of the errors behind this one, outermost first. -/
def causes : BatchError → List String
  | malformedRecord _ cause => [cause.message]
  | io cause => [cause.message]
  | _ => []

def isCorruption : BatchError → Bool
  | headerCrcMismatch .. | bodyCrcMismatch .. => true
  | _ => false

def batch? : BatchError → Option Batch
  | headerCrcMismatch _ batch | bodyCrcMismatch _ batch => some batch
  | _ => none

end BatchError

namespace Batch

def write (batch : Batch) : Bytes := batch.header.write ++ batch.records

def recordCount (batch : Batch) : Nat := batch.header.recordCount.toInt.toNat

def recordCursor (batch : Batch) : RecordCursor := .start batch.records batch.recordCount

/-- Bytes behind the last record are an error in strict mode only. Otherwise they are passed over,
as in a build without debug assertions; the assertion of a development build against them is left
out. -/
def decodeRecords (config : ReaderConfig) (batch : Batch) : Except BatchError (List Record) :=
  match (Reader.replicate Record.read batch.recordCount).run batch.records with
  | (.error e, _) => .error (.malformedRecord batch.header.baseOffset e)
  | (.ok records, rest) =>
    if config.strictRecordAccounting ∧ rest ≠ [] then
      .error (.recordAccounting batch.header.baseOffset batch.records.length
        (batch.records.length - rest.length))
    else .ok records

def verify (batch : Batch) : Except BatchError Unit :=
  if batch.header.computedHeaderCrc ≠ batch.header.headerCrc then
    .error (.headerCrcMismatch batch.header.computedHeaderCrc batch)
  else if batch.header.computedCrc batch.records ≠ batch.header.crc then
    .error (.bodyCrcMismatch (batch.header.computedCrc batch.records) batch)
  else .ok ()

def readUnchecked : Reader Batch := do
  let header ← BatchHeader.read
  let records ← Reader.take (header.recordsSize.getD 0)
  pure { header, records }

end Batch
end PartitionLog
