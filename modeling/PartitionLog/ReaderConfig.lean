import PartitionLog.Batch.Header
import PartitionLog.RawText

/-!
# Settings of the readers

A size limit above which a header counts as corrupt, whether records have to fill their region
exactly, and the directories that discovery passes over.
-/
namespace PartitionLog

structure ReaderConfig where
  maxBatchSize : Nat := 128 * 1024 * 1024
  strictRecordAccounting : Bool := false
  excludedDirs : List String := ["cloud_storage_cache"]
  deriving DecidableEq, Repr

inductive ReaderConfigError
  | maxBatchSizeTooSmall (size : Nat)
  | maxBatchSizeTooLarge (size : Nat)
  deriving DecidableEq, Repr

def ReaderConfigError.message : ReaderConfigError → String
  | maxBatchSizeTooSmall size =>
    "Max batch size " ++ size.repr ++ " is smaller than a batch header"
  | maxBatchSizeTooLarge size =>
    "Max batch size " ++ size.repr ++ " exceeds the i32 batch_size field"

namespace ReaderConfig

def forTesting : ReaderConfig where
  maxBatchSize := 1024 * 1024
  strictRecordAccounting := true

def isExcluded (config : ReaderConfig) (name : String) : Bool := config.excludedDirs.contains name

/-- Only text can be excluded. -/
def passesOver (config : ReaderConfig) (name : RawText) : Bool :=
  name.text?.any config.isExcluded

def validate (config : ReaderConfig) : Except ReaderConfigError Unit :=
  if config.maxBatchSize < BatchHeader.size then .error (.maxBatchSizeTooSmall config.maxBatchSize)
  else if Int32.maxValue.toInt < config.maxBatchSize then
    .error (.maxBatchSizeTooLarge config.maxBatchSize)
  else .ok ()

end ReaderConfig
end PartitionLog
