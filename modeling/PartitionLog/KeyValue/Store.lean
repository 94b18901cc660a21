import PartitionLog.KeyValue.Entry
import PartitionLog.KeyValue.Snapshot
import PartitionLog.KeyValue.Value
import PartitionLog.Partition.Basic

/-!
# Rebuilding a store

The state of a store is rebuilt in two phases: every record of the snapshot, if there is one, and
then every record of the store's batches in every segment, in replay order. A record with a payload
sets its key, a record without one changes nothing. Batches of other types are passed over, and on
request so are records up to the last offset of the snapshot. The first failure ends the rebuild.
-/
namespace PartitionLog.KeyValue

/-! ## Settings and errors -/

def storeBatchType : Int8 := 4

structure StoreConfig where
  batchType : Int8 := storeBatchType
  reader : ReaderConfig := {}
  skipSnapshotCovered : Bool := false
  deriving DecidableEq, Repr

def StoreConfig.forTesting : StoreConfig where
  reader := .forTesting

def StoreConfig.validate (config : StoreConfig) : Except ReaderConfigError Unit :=
  config.reader.validate

inductive StoreError
  | layout (cause : LayoutError)
  | snapshot (cause : SnapshotError)
  | snapshotFormat (cause : DecodeError)
  | segment (path : Path) (cause : BatchError)
  | entry (offset : Int64) (cause : DecodeError)
  | config (cause : ReaderConfigError)
  deriving DecidableEq, Repr

namespace StoreError

def message : StoreError → String
  | layout cause => "Layout error: " ++ cause.message
  | snapshot cause => "Snapshot error: " ++ cause.message
  | snapshotFormat cause => "Malformed kvstore snapshot: " ++ cause.message
  | segment path cause => "Segment " ++ path.text.shown ++ ": " ++ cause.message
  | entry offset cause =>
    "Malformed kvstore record at offset " ++ offset.toInt.repr ++ ": " ++ cause.message
  | config cause => "Invalid configuration: " ++ cause.message

def causes : StoreError → List String
  | layout cause => cause.message :: cause.causes
  | snapshot cause => cause.message :: cause.causes
  | snapshotFormat cause => [cause.message]
  | segment _ cause => cause.message :: cause.causes
  | entry _ cause => [cause.message]
  | config cause => [cause.message]

end StoreError

/-! ## State -/

structure Item where
  key : Key
  value : Value
  offset : Int64
  timestamp : String
  deriving Repr

structure ReplayStats where
  snapshotLastOffset : Option Int64 := none
  snapshotRecords : Nat := 0
  segmentsRead : Nat := 0
  batchesRead : Nat := 0
  batchesSkipped : Nat := 0
  recordsRead : Nat := 0
  recordsSkipped : Nat := 0
  recordsApplied : Nat := 0
  absentPayloads : Nat := 0
  deriving DecidableEq, Repr

structure State where
  entries : SortedMap StoredKey Item := []
  stats : ReplayStats := {}
  deriving Repr

def Item.toJson (item : Item) : Json := .obj [
  ("key", item.key.toJson),
  ("value", item.value.toJson)]

def Item.ofEntry (readConfig : Reader Json) (entry : Entry) (payload : Bytes) : Item :=
  let key := Key.decode entry.key.space entry.key.buffer
  { key, value := .decode readConfig key payload, offset := entry.offset,
    timestamp := entry.timestamp }

namespace State

def items (state : State) : List Item := state.entries.map Prod.snd

def get? (state : State) (key : StoredKey) : Option Item := SortedMap.get? key state.entries

def size (state : State) : Nat := state.entries.length

def apply (readConfig : Reader Json) (state : State) (entry : Entry) : State :=
  match entry.payload with
  | none => { state with stats.absentPayloads := state.stats.absentPayloads + 1 }
  | some payload =>
    { state with entries := state.entries.insert entry.key (.ofEntry readConfig entry payload) }

end State

/-! ## Rebuilding -/

structure Store where
  partition : Partition
  config : StoreConfig := {}
  readConfig : Reader Json := RaftConfig.readJson

namespace Store

def openAt (tree : FileTree) (path : Path) : Except StoreError Store := do
  let partition ← (Partition.openAt tree path).mapError .layout
  pure { partition }

def decodeEntry (header : BatchHeader) (record : Record) : Except StoreError Entry :=
  (Entry.ofRecord header record).mapError (.entry (Entry.offsetOf header record))

/-! ### Snapshot -/

def readSnapshot (tree : FileTree) (path : Path) : Except StoreError StoreSnapshot := do
  let bytes ← (tree.fileContents path).mapError fun e => .snapshot (.io e)
  let snapshot ← (Snapshot.ofBytes bytes).mapError .snapshot
  (StoreSnapshot.ofSnapshot snapshot).mapError .snapshotFormat

def bootstrapRecord (store : Store) (header : BatchHeader) (state : State) (record : Record) :
    Except StoreError State := do
  let entry ← decodeEntry header record
  pure <| State.apply store.readConfig
    { state with stats.snapshotRecords := state.stats.snapshotRecords + 1 } entry

def bootstrap (store : Store) (tree : FileTree) : Except StoreError State :=
  match store.partition.snapshot with
  | none => pure {}
  | some path => do
    let snapshot ← readSnapshot tree path
    let state ← snapshot.batch.records.foldlM (bootstrapRecord store snapshot.batch.header) {}
    pure { state with stats.snapshotLastOffset := some snapshot.lastOffset }

/-! ### Segments -/

def isCovered (store : Store) (lastOffset : Option Int64) (offset : Int64) : Bool :=
  store.config.skipSnapshotCovered && lastOffset.any (offset ≤ ·)

def replayRecord (store : Store) (header : BatchHeader) (state : State) (record : Record) :
    Except StoreError State := do
  let entry ← decodeEntry header record
  let stats := { state.stats with recordsRead := state.stats.recordsRead + 1 }
  if store.isCovered stats.snapshotLastOffset entry.offset then
    pure { state with stats := { stats with recordsSkipped := stats.recordsSkipped + 1 } }
  else
    pure <| State.apply store.readConfig
      { state with stats := { stats with recordsApplied := stats.recordsApplied + 1 } } entry

def replayBatch (store : Store) (path : Path) (state : State) (batch : Batch) :
    Except StoreError State := do
  let stats := { state.stats with batchesRead := state.stats.batchesRead + 1 }
  if batch.header.batchType ≠ store.config.batchType then
    pure { state with stats := { stats with batchesSkipped := stats.batchesSkipped + 1 } }
  else do
    let records ← (batch.decodeRecords store.config.reader).mapError (.segment path)
    records.foldlM (replayRecord store batch.header) { state with stats }

def replayItem (store : Store) (path : Path) (state : State) (item : Except BatchError Batch) :
    Except StoreError State := do
  replayBatch store path state (← item.mapError (.segment path))

def replaySegment (store : Store) (tree : FileTree) (state : State) (segment : Segment) :
    Except StoreError State := do
  let cursor ← (segment.batches tree store.config.reader).mapError fun e =>
    .segment segment.path (.io e)
  cursor.items.foldlM (replayItem store segment.path)
    { state with stats.segmentsRead := state.stats.segmentsRead + 1 }

def decode (store : Store) (tree : FileTree) : Except StoreError State := do
  store.config.validate.mapError .config
  let state ← store.bootstrap tree
  store.partition.segments.foldlM (replaySegment store tree) state

end Store
end PartitionLog.KeyValue
