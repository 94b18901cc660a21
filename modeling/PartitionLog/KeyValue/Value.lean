import PartitionLog.KeyValue.Key
import PartitionLog.Raft.Config

/-!
# Values

What a value means depends on its key. Group configurations are read by a reader that the caller
chooses. Reading is all or nothing: a value that cannot be read is kept as bytes.
-/
namespace PartitionLog.KeyValue

inductive Value
  | votedFor (node : Vnode) (term : Int64)
  | configMap (configs : SortedMap Int64 Json)
  | offset (n : Int64)
  | empty
  | raw (bytes : Bytes)
  deriving Repr

namespace Value

def readVotedFor : Reader Value := do
  let node ← Vnode.read
  let term ← Reader.i64
  pure (.votedFor node term)

def readConfigEntry (config : Reader Json) : Reader (Int64 × Json) := do
  let offset ← Reader.i64
  let value ← config
  pure (offset, value)

/-- The last configuration of an offset stays. -/
def readConfigMap (config : Reader Json) : Reader Value := do
  let count ← Reader.u64
  let entries ← Reader.replicate (readConfigEntry config) count.toNat
  pure (.configMap (.ofList entries))

def readOffset : Reader Value := Value.offset <$> Reader.i64

def reader? (config : Reader Json) : KeyData → Option (Reader Value)
  | .consensus .votedFor _ => some readVotedFor
  | .consensus .configMap _ => some (readConfigMap config)
  | .consensus .configLatestKnownOffset _ => some readOffset
  | .consensus .lastAppliedOffset _ => some readOffset
  | .consensus .configNextCfgIdx _ => some readOffset
  | .consensus .uniqueLocalId _ => some (pure .empty)
  | .consensus (.unknown _) _ => none
  | .storage .startOffset _ => some readOffset
  | .storage (.unknown _) _ => none
  | .raw _ => none

def decode (config : Reader Json) (key : Key) (bytes : Bytes) : Value :=
  match reader? config key.data with
  | none => .raw bytes
  | some reader =>
    match (reader.run bytes).1 with
    | .ok value => value
    | .error _ => .raw bytes

def toString : Value → String
  | votedFor node term =>
    "vnode=\x7bid=" ++ node.id.toInt.repr ++ ", revision=" ++ node.revision.toInt.repr ++
      "\x7d term=" ++ term.toInt.repr
  | configMap configs =>
    configs.length.repr ++ " configurations at [" ++
      ", ".intercalate (configs.map fun entry => entry.1.toInt.repr) ++ "]"
  | .offset n => n.toInt.repr
  | empty => "null"
  | raw bytes => Bytes.hex bytes

def toJson : Value → Json
  | votedFor node term => .obj [("vnode", node.toJson), ("term", .num term.toInt)]
  | configMap configs => .obj (configs.map fun entry => (entry.1.toInt.repr, entry.2))
  | .offset n => .num n.toInt
  | empty => .null
  | raw bytes => .hex bytes

end Value
end PartitionLog.KeyValue
