import PartitionLog.Json
import PartitionLog.KeyValue.KeySpace
import PartitionLog.Ntp

/-!
# Keys

Keys of the consensus space are a kind and a group, keys of the storage space a kind and a
partition. Every other key, and every key that cannot be read, is kept as bytes.
-/
namespace PartitionLog.KeyValue

inductive ConsensusKind
  | votedFor
  | configMap
  | configLatestKnownOffset
  | lastAppliedOffset
  | uniqueLocalId
  | configNextCfgIdx
  | unknown (tag : Int8)
  deriving DecidableEq, Repr

namespace ConsensusKind

def ofTag (tag : Int8) : ConsensusKind :=
  if tag = 0 then votedFor
  else if tag = 1 then configMap
  else if tag = 2 then configLatestKnownOffset
  else if tag = 3 then lastAppliedOffset
  else if tag = 4 then uniqueLocalId
  else if tag = 5 then configNextCfgIdx
  else unknown tag

def tag : ConsensusKind → Int8
  | votedFor => 0
  | configMap => 1
  | configLatestKnownOffset => 2
  | lastAppliedOffset => 3
  | uniqueLocalId => 4
  | configNextCfgIdx => 5
  | unknown tag => tag

def name : ConsensusKind → String
  | votedFor => "voted_for"
  | configMap => "config_map"
  | configLatestKnownOffset => "config_latest_known_offset"
  | lastAppliedOffset => "last_applied_offset"
  | uniqueLocalId => "unique_local_id"
  | configNextCfgIdx => "config_next_cfg_idx"
  | unknown _ => "unknown"

end ConsensusKind

inductive StorageKind
  | startOffset
  | unknown (tag : Int8)
  deriving DecidableEq, Repr

namespace StorageKind

def ofTag (tag : Int8) : StorageKind := if tag = 0 then startOffset else unknown tag

def tag : StorageKind → Int8
  | startOffset => 0
  | unknown tag => tag

def name : StorageKind → String
  | startOffset => "start_offset"
  | unknown _ => "unknown"

end StorageKind

inductive KeyData
  | consensus (kind : ConsensusKind) (group : Int64)
  | storage (kind : StorageKind) (ntp : Ntp)
  | raw (bytes : Bytes)
  deriving DecidableEq, Repr

structure Key where
  space : KeySpace
  data : KeyData
  deriving DecidableEq, Repr

namespace KeyData

def readConsensus : Reader KeyData := do
  let tag ← Reader.i8
  let group ← Reader.i64
  pure (.consensus (.ofTag tag) group)

def readStorage : Reader KeyData := do
  let tag ← Reader.i8
  let ntp ← Ntp.read
  pure (.storage (.ofTag tag) ntp)

/-- What `reader` finds at the front, or all the bytes if it fails. -/
def readOrRaw (reader : Reader KeyData) (buffer : Bytes) : KeyData :=
  match (reader.run buffer).1 with
  | .ok data => data
  | .error _ => .raw buffer

def write : KeyData → Bytes
  | consensus kind group => Wire.i8 kind.tag ++ Wire.i64 group
  | storage kind ntp => Wire.i8 kind.tag ++ ntp.write
  | raw bytes => bytes

def toString : KeyData → String
  | consensus kind group => kind.name ++ " group=" ++ group.toInt.repr
  | storage kind ntp => kind.name ++ " ntp=" ++ ntp.toString
  | raw bytes => Bytes.hex bytes

def toJson : KeyData → Json
  | consensus kind group => .obj [
    ("type", .num kind.tag.toInt),
    ("name", .str kind.name),
    ("group", .num group.toInt)]
  | storage kind ntp => .obj [
    ("type", .num kind.tag.toInt),
    ("name", .str kind.name),
    ("ntp", .obj [
      ("namespace", .str ntp.ns),
      ("topic", .str ntp.topic),
      ("partition", .num ntp.partition.toInt)])]
  | raw bytes => .hex bytes

end KeyData

namespace Key

def decode (space : KeySpace) (buffer : Bytes) : Key where
  space := space
  data := match space with
    | .consensus => .readOrRaw KeyData.readConsensus buffer
    | .storage => .readOrRaw KeyData.readStorage buffer
    | _ => .raw buffer

def consensus (kind : ConsensusKind) (group : Int64) : Key := ⟨.consensus, .consensus kind group⟩

def storage (kind : StorageKind) (ntp : Ntp) : Key := ⟨.storage, .storage kind ntp⟩

def write (key : Key) : Bytes := Wire.i8 key.space.tag ++ key.data.write

def toString (key : Key) : String := key.space.name ++ " " ++ key.data.toString

def toJson (key : Key) : Json := .obj [
  ("keyspace", .str key.space.name),
  ("data", key.data.toJson)]

end Key
end PartitionLog.KeyValue
