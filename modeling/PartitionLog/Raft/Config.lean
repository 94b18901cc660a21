import PartitionLog.Json
import PartitionLog.Raft.Vnode

/-!
# Configurations of a consensus group

A configuration lists brokers, the members of the group and, while it changes, its former members.
From version 4 on it may say which replicas come and go.
-/
namespace PartitionLog

structure Endpoint where
  name : String
  address : String
  port : UInt16
  deriving DecidableEq, Repr

structure Broker where
  id : Int32
  kafkaEndpoints : List Endpoint
  rpcAddress : String
  rpcPort : UInt16
  rack : Option String
  cores : UInt32
  memory : UInt32
  disk : UInt32
  mountPaths : List String
  etc : List (String × String)
  deriving DecidableEq, Repr

structure GroupNodes where
  voters : List Vnode
  learners : List Vnode
  deriving DecidableEq, Repr

structure ConfigUpdate where
  replicasToAdd : List Vnode
  replicasToRemove : List Vnode
  deriving DecidableEq, Repr

structure RaftConfig where
  version : Int8
  brokers : List Broker
  current : GroupNodes
  previous : Option GroupNodes
  revision : Int64
  update : Option ConfigUpdate
  deriving DecidableEq, Repr

/-! ## Reading -/

def Endpoint.read : Reader Endpoint := do
  let name ← Reader.text
  let address ← Reader.text
  let port ← Reader.u16
  pure { name, address, port }

def Broker.readProperty : Reader (String × String) := do
  let name ← Reader.text
  let value ← Reader.text
  pure (name, value)

def Broker.read : Reader Broker := do
  let id ← Reader.i32
  let kafkaEndpoints ← Reader.vector Endpoint.read
  let rpcAddress ← Reader.text
  let rpcPort ← Reader.u16
  let rack ← Reader.optional Reader.text
  let cores ← Reader.u32
  let memory ← Reader.u32
  let disk ← Reader.u32
  let mountPaths ← Reader.vector Reader.text
  let etc ← Reader.vector Broker.readProperty
  pure { id, kafkaEndpoints, rpcAddress, rpcPort, rack, cores, memory, disk, mountPaths, etc }

def GroupNodes.read : Reader GroupNodes := do
  let voters ← Reader.vector Vnode.read
  let learners ← Reader.vector Vnode.read
  pure { voters, learners }

def ConfigUpdate.read : Reader ConfigUpdate := do
  let replicasToAdd ← Reader.vector Vnode.read
  let replicasToRemove ← Reader.vector Vnode.read
  pure { replicasToAdd, replicasToRemove }

def RaftConfig.updateVersion : Int8 := 4

def RaftConfig.read : Reader RaftConfig := do
  let version ← Reader.i8
  let brokers ← Reader.vector Broker.read
  let current ← GroupNodes.read
  let previous ← Reader.optional GroupNodes.read
  let revision ← Reader.i64
  let update ← if updateVersion ≤ version then Reader.optional ConfigUpdate.read else pure none
  pure { version, brokers, current, previous, revision, update }

/-! ## Writing -/

def Endpoint.write (e : Endpoint) : Bytes :=
  Wire.text e.name ++ Wire.text e.address ++ Wire.u16 e.port

def Broker.writeProperty (property : String × String) : Bytes :=
  Wire.text property.1 ++ Wire.text property.2

def Broker.write (b : Broker) : Bytes :=
  Wire.i32 b.id ++ Wire.vector Endpoint.write b.kafkaEndpoints ++ Wire.text b.rpcAddress ++
  Wire.u16 b.rpcPort ++ Wire.optional Wire.text b.rack ++ Wire.u32 b.cores ++ Wire.u32 b.memory ++
  Wire.u32 b.disk ++ Wire.vector Wire.text b.mountPaths ++ Wire.vector Broker.writeProperty b.etc

def GroupNodes.write (nodes : GroupNodes) : Bytes :=
  Wire.vector Vnode.write nodes.voters ++ Wire.vector Vnode.write nodes.learners

def ConfigUpdate.write (u : ConfigUpdate) : Bytes :=
  Wire.vector Vnode.write u.replicasToAdd ++ Wire.vector Vnode.write u.replicasToRemove

/-- An update is left out where the version has no place for it. -/
def RaftConfig.write (c : RaftConfig) : Bytes :=
  Wire.i8 c.version ++ Wire.vector Broker.write c.brokers ++ c.current.write ++
  Wire.optional GroupNodes.write c.previous ++ Wire.i64 c.revision ++
  if updateVersion ≤ c.version then Wire.optional ConfigUpdate.write c.update else []

/-! ## As JSON -/

def Vnode.toJson (node : Vnode) : Json := .obj [
  ("id", .num node.id.toInt),
  ("revision", .num node.revision.toInt)]

def Endpoint.toJson (e : Endpoint) : Json := .obj [
  ("name", .str e.name),
  ("address", .str e.address),
  ("port", .ofNat e.port.toNat)]

def Broker.toJson (b : Broker) : Json := .obj [
  ("id", .num b.id.toInt),
  ("kafka_endpoints", .ofList Endpoint.toJson b.kafkaEndpoints),
  ("rpc_address", .str b.rpcAddress),
  ("rpc_port", .ofNat b.rpcPort.toNat),
  ("rack", .ofOption Json.str b.rack),
  ("cores", .ofNat b.cores.toNat),
  ("memory", .ofNat b.memory.toNat),
  ("disk", .ofNat b.disk.toNat),
  ("mount_paths", .ofList Json.str b.mountPaths),
  ("etc", .ofList (fun property => .arr [.str property.1, .str property.2]) b.etc)]

def GroupNodes.toJson (nodes : GroupNodes) : Json := .obj [
  ("voters", .ofList Vnode.toJson nodes.voters),
  ("learners", .ofList Vnode.toJson nodes.learners)]

def ConfigUpdate.toJson (u : ConfigUpdate) : Json := .obj [
  ("replicas_to_add", .ofList Vnode.toJson u.replicasToAdd),
  ("replicas_to_remove", .ofList Vnode.toJson u.replicasToRemove)]

def RaftConfig.toJson (c : RaftConfig) : Json := .obj ([
  ("version", .num c.version.toInt),
  ("brokers", .ofList Broker.toJson c.brokers),
  ("current_config", c.current.toJson),
  ("prev_config", .ofOption GroupNodes.toJson c.previous),
  ("revision", .num c.revision.toInt)] ++
  (c.update.map fun u => ("configuration_update", u.toJson)).toList)

def RaftConfig.readJson : Reader Json := (fun c => c.toJson.sorted) <$> RaftConfig.read

end PartitionLog
