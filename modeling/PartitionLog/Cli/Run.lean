import PartitionLog.Cli.Arguments
import PartitionLog.Cli.Report

/-!
# Running a command

A run sees one file tree and the arguments. It prints on one of the two streams, and its exit code
tells a wrong command line from a failure.
-/
namespace PartitionLog.Cli

structure Outcome where
  code : UInt32
  stdout : String
  stderr : String
  deriving DecidableEq, Repr

def Invocation.readerConfig (invocation : Invocation) : ReaderConfig :=
  let config : ReaderConfig := { strictRecordAccounting := invocation.strict }
  match invocation.maxBatchSize with
  | none => config
  | some size => { config with maxBatchSize := size }

def scanDir (tree : FileTree) (config : ReaderConfig) (dir : String) : Except Failure DataDir :=
  (DataDir.scan tree config ⟨dir⟩).mapError fun e =>
    ("scanning " ++ dir) :: e.message :: e.causes

/-! ## The commands -/

def listPartitions (tree : FileTree) (config : ReaderConfig) (json : Bool) (dir : String) :
    Except Failure String := do
  let data ← scanDir tree config dir
  pure (reportPartitions json data.partitions)

def readReport (config : ReaderConfig) (file : String) (withRecords : Bool)
    (item : Except BatchError Batch) : Except Failure BatchReport := do
  let batch ← item.mapError fun e => ("reading " ++ file) :: e.message :: e.causes
  if withRecords then
    let records ← (batch.decodeRecords config).mapError fun e => e.message :: e.causes
    pure ⟨batch, some records⟩
  else pure ⟨batch, none⟩

def dumpSegment (tree : FileTree) (config : ReaderConfig) (json : Bool) (file : String)
    (withRecords : Bool) : Except Failure String := do
  let cursor ← (Segment.batches ⟨⟨file⟩⟩ tree config).mapError fun e =>
    ["opening " ++ file, e.message]
  let reports ← cursor.items.mapM (readReport config file withRecords)
  pure (reportBatches json reports)

def storePartitions (data : DataDir) : Option String → Except Failure (List Partition)
  | none => .ok (data.topic "redpanda" "kvstore")
  | some text => do
    let ntp ← (Ntp.ofString text).mapError fun e => [e.message]
    pure (data.find ntp)

def selectStores (tree : FileTree) (config : ReaderConfig) (dir : String) (ntp : Option String) :
    Except Failure (List Partition) := do
  let data ← scanDir tree config dir
  let partitions ← storePartitions data ntp
  if partitions.isEmpty then .error ["no matching kvstore partition under " ++ dir]
  else pure partitions

def rebuildStore (tree : FileTree) (config : ReaderConfig) (partition : Partition) :
    Except Failure StoreReport := do
  let store : KeyValue.Store := { partition, config := { reader := config } }
  let state ← (store.decode tree).mapError fun e =>
    ("decoding kvstore " ++ partition.displayName) :: e.message :: e.causes
  pure ⟨partition.displayName, state⟩

def dumpStores (tree : FileTree) (config : ReaderConfig) (json : Bool) (dir : String)
    (ntp : Option String) : Except Failure String := do
  let partitions ← selectStores tree config dir ntp
  let reports ← partitions.mapM (rebuildStore tree config)
  pure (reportStores json reports)

def execute (tree : FileTree) (invocation : Invocation) : Except Failure String := do
  let config := invocation.readerConfig
  config.validate.mapError fun e => [e.message]
  match invocation.command with
  | .ntps dir => listPartitions tree config invocation.json dir
  | .segment file records => dumpSegment tree config invocation.json file records
  | .kvstore dir ntp => dumpStores tree config invocation.json dir ntp

/-! ## What a run sees -/

def Command.path : Command → Path
  | .ntps dir => ⟨dir⟩
  | .segment file _ => ⟨file⟩
  | .kvstore dir _ => ⟨dir⟩

/-- The files of the stores that a run rebuilds, told by the names in the tree alone. -/
def Invocation.storeFiles (invocation : Invocation) (tree : FileTree) : List Path :=
  match invocation.command with
  | .kvstore dir ntp =>
    match selectStores tree invocation.readerConfig dir ntp with
    | .ok partitions => partitions.flatMap Partition.files
    | .error _ => []
  | _ => []

/-! ## The outcome -/

def Invocation.fail (invocation : Invocation) (failure : Failure) : Outcome :=
  ⟨1, "", reportFailure invocation.json failure⟩

def Invocation.run (tree : FileTree) (invocation : Invocation) : Outcome :=
  match execute tree invocation with
  | .ok text => ⟨0, text, ""⟩
  | .error failure => invocation.fail failure

def UsageError.outcome (e : UsageError) : Outcome :=
  ⟨2, "", "error: " ++ e.message ++ "\n\nusage: partition-log [--json] [--strict] " ++
    "[--max-batch-size N] (ntps DIR | segment FILE [--records] | kvstore DIR [--ntp NTP])\n"⟩

def run (tree : FileTree) (args : List String) : Outcome :=
  match Invocation.ofArguments args with
  | .ok invocation => invocation.run tree
  | .error e => e.outcome

end PartitionLog.Cli
