import PartitionLog.KeyValue.Store
import PartitionLog.Partition.Discovery

/-!
# Reports

What the commands print: lines for people, or one indented JSON value.
-/
namespace PartitionLog.Cli

def linesOrEmpty (lines : List String) : String :=
  if lines.isEmpty then "(empty)\n" else String.join (lines.map (· ++ "\n"))

/-! ## Partitions -/

def partitionLine (p : Partition) : String :=
  p.displayName ++ " segments=" ++ p.segments.length.repr ++
    if p.snapshot.isSome then " snapshot" else ""

def partitionJson (p : Partition) : Json := .obj [
  ("ntp", .str p.ntp.toString),
  ("revision", .num p.revision.toInt),
  ("path", .str p.path.text.shown),
  ("segments", .ofList (fun name => .str name.toString) (p.segments.filterMap Segment.name?)),
  ("snapshot", .bool p.snapshot.isSome)]

def reportPartitions (json : Bool) (partitions : List Partition) : String :=
  if json then (Json.ofList partitionJson partitions).indented
  else linesOrEmpty (partitions.map partitionLine)

/-! ## Batches -/

structure BatchReport where
  batch : Batch
  records : Option (List Record)

def hexOrNull : Option Bytes → String
  | none => "null"
  | some bytes => Bytes.hex bytes

def recordOffset (header : BatchHeader) (record : Record) : Int64 :=
  header.baseOffset + record.offsetDelta

def recordLine (header : BatchHeader) (record : Record) : String :=
  "  offset=" ++ (recordOffset header record).toInt.repr ++ " key=" ++ hexOrNull record.key ++
    " value=" ++ hexOrNull record.value

def batchLine (batch : Batch) : String :=
  "#" ++ batch.index.repr ++ " @" ++ batch.filePosition.repr ++
    " offsets=" ++ batch.header.baseOffset.toInt.repr ++
    "..=" ++ batch.header.lastOffset.toInt.repr ++
    " type=" ++ batch.header.batchType.toInt.repr ++
    " records=" ++ batch.header.recordCount.toInt.repr ++
    " size=" ++ batch.header.batchSize.toInt.repr ++
    " ts=" ++ batch.header.firstTimestamp.toInt.repr

def batchLines (report : BatchReport) : List String :=
  batchLine report.batch :: (report.records.getD []).map (recordLine report.batch.header)

def recordJson (header : BatchHeader) (record : Record) : Json := .obj [
  ("offset", .num (recordOffset header record).toInt),
  ("timestamp_delta", .num record.timestampDelta.toInt),
  ("key", .ofOption Json.hex record.key),
  ("value", .ofOption Json.hex record.value),
  ("headers", .ofNat record.headers.length)]

def batchJson (report : BatchReport) : Json := .obj ([
  ("index", .ofNat report.batch.index),
  ("file_position", .ofNat report.batch.filePosition),
  ("last_offset", .num report.batch.header.lastOffset.toInt),
  ("header", report.batch.header.toJson)] ++
  (report.records.map fun records =>
    ("records", Json.ofList (recordJson report.batch.header) records)).toList)

def reportBatches (json : Bool) (reports : List BatchReport) : String :=
  if json then (Json.ofList batchJson reports).indented
  else linesOrEmpty (reports.flatMap batchLines)

/-! ## Stores -/

structure StoreReport where
  name : String
  state : KeyValue.State

def itemLine (item : KeyValue.Item) : String :=
  "  " ++ item.key.toString ++ " => " ++ item.value.toString ++ " (offset " ++
    item.offset.toInt.repr ++ ", " ++ item.timestamp ++ ")"

def storeLines (report : StoreReport) : List String :=
  (report.name ++ " (" ++ report.state.size.repr ++ " keys)") :: report.state.items.map itemLine

def storeJson (report : StoreReport) : Json := .obj [
  ("ntp", .str report.name),
  ("items", .ofList KeyValue.Item.toJson report.state.items)]

def reportStores (json : Bool) (reports : List StoreReport) : String :=
  if json then (Json.ofList storeJson reports).indented
  else String.join ((reports.flatMap storeLines).map (· ++ "\n"))

/-! ## Failures -/

/-- A failure is told from the outside in, and what an error tells of its causes stands there
again. -/
abbrev Failure := List String

def reportFailure (json : Bool) (failure : Failure) : String :=
  if json then (Json.obj [("error", .str (": ".intercalate failure))]).indented ++ "\n"
  else "(error) " ++ ": ".intercalate failure ++ "\n"

end PartitionLog.Cli
