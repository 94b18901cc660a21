import PartitionLog.Proofs.Presence
import PartitionLog.Raft.Config

/-!
# Configurations written and read

A configuration that has a place for all its fields comes back from its bytes
(`RaftConfig.decodes_write`). Whatever bytes a configuration is read from, it is written again in
just as many, and in the same ones if their presence bytes are 0 or 1: `RaftConfig.written_read`.
-/
namespace PartitionLog
open Reader (Decodes Canonical UpToPresence)

/-! ## Configurations with a written form -/

structure Endpoint.Representable (e : Endpoint) : Prop where
  name : e.name.utf8ByteSize < 2 ^ 31
  address : e.address.utf8ByteSize < 2 ^ 31

structure Broker.Representable (b : Broker) : Prop where
  kafkaEndpoints : b.kafkaEndpoints.length < 2 ^ 31
  eachEndpoint : ∀ e ∈ b.kafkaEndpoints, e.Representable
  rpcAddress : b.rpcAddress.utf8ByteSize < 2 ^ 31
  rack : ∀ rack ∈ b.rack, rack.utf8ByteSize < 2 ^ 31
  mountPaths : b.mountPaths.length < 2 ^ 31
  eachMountPath : ∀ path ∈ b.mountPaths, path.utf8ByteSize < 2 ^ 31
  etc : b.etc.length < 2 ^ 31
  eachProperty : ∀ property ∈ b.etc,
    property.1.utf8ByteSize < 2 ^ 31 ∧ property.2.utf8ByteSize < 2 ^ 31

structure GroupNodes.Representable (nodes : GroupNodes) : Prop where
  voters : nodes.voters.length < 2 ^ 31
  learners : nodes.learners.length < 2 ^ 31

structure ConfigUpdate.Representable (u : ConfigUpdate) : Prop where
  replicasToAdd : u.replicasToAdd.length < 2 ^ 31
  replicasToRemove : u.replicasToRemove.length < 2 ^ 31

structure RaftConfig.Representable (c : RaftConfig) : Prop where
  brokers : c.brokers.length < 2 ^ 31
  eachBroker : ∀ b ∈ c.brokers, b.Representable
  current : c.current.Representable
  previous : ∀ nodes ∈ c.previous, nodes.Representable
  update : ∀ u ∈ c.update, u.Representable
  /-- Older versions have no place for an update. -/
  updatePlaced : c.update ≠ none → updateVersion ≤ c.version

/-! ## Written, then read -/

theorem Endpoint.Representable.decodes_write {e : Endpoint} (fits : e.Representable) :
    read.Decodes e.write e := by
  refine .of_eq ?_ <| (Decodes.text fits.name).bind <| (Decodes.text fits.address).bind <|
    (Decodes.u16 e.port).bind_pure _
  simp only [write, List.append_assoc]

theorem Broker.decodes_writeProperty {property : String × String}
    (name : property.1.utf8ByteSize < 2 ^ 31) (value : property.2.utf8ByteSize < 2 ^ 31) :
    readProperty.Decodes (writeProperty property) property :=
  (Decodes.text name).bind ((Decodes.text value).bind_pure _)

theorem Broker.Representable.decodes_write {b : Broker} (fits : b.Representable) :
    read.Decodes b.write b := by
  have kafkaEndpoints := Decodes.vector_self fits.kafkaEndpoints fun e member =>
    (fits.eachEndpoint e member).decodes_write
  have rack := Decodes.optional_self b.rack fun rack present => Decodes.text (fits.rack rack present)
  have mountPaths := Decodes.vector_self fits.mountPaths fun path member =>
    Decodes.text (fits.eachMountPath path member)
  have etc := Decodes.vector_self fits.etc fun property member =>
    decodes_writeProperty (fits.eachProperty property member).1 (fits.eachProperty property member).2
  refine .of_eq ?_ <| (Decodes.i32 b.id).bind <| kafkaEndpoints.bind <|
    (Decodes.text fits.rpcAddress).bind <| (Decodes.u16 b.rpcPort).bind <| rack.bind <|
    (Decodes.u32 b.cores).bind <| (Decodes.u32 b.memory).bind <| (Decodes.u32 b.disk).bind <|
    mountPaths.bind <| etc.bind_pure _
  simp only [write, List.append_assoc]

theorem GroupNodes.Representable.decodes_write {nodes : GroupNodes} (fits : nodes.Representable) :
    read.Decodes nodes.write nodes :=
  (Decodes.vector_self fits.voters fun node _ => node.decodes_write).bind <|
    (Decodes.vector_self fits.learners fun node _ => node.decodes_write).bind_pure _

theorem ConfigUpdate.Representable.decodes_write {u : ConfigUpdate} (fits : u.Representable) :
    read.Decodes u.write u :=
  (Decodes.vector_self fits.replicasToAdd fun node _ => node.decodes_write).bind <|
    (Decodes.vector_self fits.replicasToRemove fun node _ => node.decodes_write).bind_pure _

namespace RaftConfig

def readUpdate (version : Int8) : Reader (Option ConfigUpdate) :=
  if updateVersion ≤ version then Reader.optional ConfigUpdate.read else pure none

def writeUpdate (version : Int8) (update : Option ConfigUpdate) : Bytes :=
  if updateVersion ≤ version then Wire.optional ConfigUpdate.write update else []

theorem read_eq : read = (do
    let version ← Reader.i8
    let brokers ← Reader.vector Broker.read
    let current ← GroupNodes.read
    let previous ← Reader.optional GroupNodes.read
    let revision ← Reader.i64
    let update ← readUpdate version
    pure { version, brokers, current, previous, revision, update }) := by
  unfold read readUpdate
  refine bind_congr fun version => bind_congr fun _ => bind_congr fun _ => bind_congr fun _ =>
    bind_congr fun _ => ?_
  split <;> rfl

theorem Representable.decodes_writeUpdate {c : RaftConfig} (fits : c.Representable) :
    (readUpdate c.version).Decodes (writeUpdate c.version c.update) c.update := by
  by_cases placed : updateVersion ≤ c.version
  · rw [readUpdate, writeUpdate, if_pos placed, if_pos placed]
    exact .optional_self c.update fun u present => (fits.update u present).decodes_write
  · rw [readUpdate, writeUpdate, if_neg placed, if_neg placed,
      not_not.mp (mt fits.updatePlaced placed)]
    exact fun _ => rfl

theorem Representable.decodes_write {c : RaftConfig} (fits : c.Representable) :
    read.Decodes c.write c := by
  have brokers := Decodes.vector_self fits.brokers fun b member =>
    (fits.eachBroker b member).decodes_write
  have previous := Decodes.optional_self c.previous fun nodes present =>
    (fits.previous nodes present).decodes_write
  rw [read_eq]
  refine .of_eq ?_ <| (Decodes.i8 c.version).bind <| brokers.bind <|
    fits.current.decodes_write.bind <| previous.bind <| (Decodes.i64 c.revision).bind <|
    fits.decodes_writeUpdate.bind_pure _
  simp only [write, writeUpdate, List.append_assoc]

end RaftConfig

/-! ## Read, then written -/

theorem Endpoint.canonical_read : read.Canonical write := by
  have fields := Canonical.text.pair (Canonical.text.pair .u16)
  refine .of_eq ?_ (fields.map (f := fun x => ⟨x.1, x.2.1, x.2.2⟩) fun _ => ?_)
  · simp [read, Reader.pair]
  · simp only [write, List.append_assoc]

theorem Broker.canonical_readProperty : readProperty.Canonical writeProperty :=
  Canonical.text.pair .text

theorem GroupNodes.canonical_read : read.Canonical write := by
  have fields := Vnode.canonical_read.vector.pair Vnode.canonical_read.vector
  refine .of_eq ?_ (fields.map (f := fun x => GroupNodes.mk x.1 x.2) fun _ => ?_)
  · simp [read, Reader.pair]
  · rfl

theorem ConfigUpdate.canonical_read : read.Canonical write := by
  have fields := Vnode.canonical_read.vector.pair Vnode.canonical_read.vector
  refine .of_eq ?_ (fields.map (f := fun x => ConfigUpdate.mk x.1 x.2) fun _ => ?_)
  · simp [read, Reader.pair]
  · rfl

/-- The byte that says whether there is a rack. -/
def Broker.presence : Reader Bytes := do
  let _ ← Reader.i32
  let _ ← Reader.vector Endpoint.read
  let _ ← Reader.text
  let _ ← Reader.u16
  let rack ← Reader.text.presence
  let _ ← Reader.u32
  let _ ← Reader.u32
  let _ ← Reader.u32
  let _ ← Reader.vector Reader.text
  let _ ← Reader.vector readProperty
  pure rack

theorem Broker.upToPresence_read : read.UpToPresence presence write := by
  have fields := Canonical.i32.upToPresence.pair <|
    Endpoint.canonical_read.vector.upToPresence.pair <| Canonical.text.upToPresence.pair <|
    Canonical.u16.upToPresence.pair <| Canonical.text.optional.pair <|
    Canonical.u32.upToPresence.pair <| Canonical.u32.upToPresence.pair <|
    Canonical.u32.upToPresence.pair <| Canonical.text.vector.upToPresence.pair
      canonical_readProperty.vector.upToPresence
  refine .of_eq ?_ ?_ (fields.map (f := fun
    (id, kafkaEndpoints, rpcAddress, rpcPort, rack, cores, memory, disk, mountPaths, etc) =>
    { id, kafkaEndpoints, rpcAddress, rpcPort, rack, cores, memory, disk, mountPaths, etc })
    fun _ => ?_)
  · simp [read, Reader.pair]
  · simp [presence, Reader.joined, Reader.skip]
  · simp only [write, List.append_assoc]

namespace RaftConfig

def updatePresence (version : Int8) : Reader Bytes :=
  if updateVersion ≤ version then ConfigUpdate.read.presence else pure []

/-- The bytes in front of the racks, the former members and the update. -/
def presence : Reader Bytes := do
  let version ← Reader.i8
  let racks ← Reader.vector Broker.presence
  let _ ← GroupNodes.read
  let previous ← GroupNodes.read.presence
  let _ ← Reader.i64
  let update ← updatePresence version
  pure (racks.flatten ++ previous ++ update)

theorem upToPresence_readUpdate (version : Int8) :
    (readUpdate version).UpToPresence (updatePresence version) (writeUpdate version) := by
  by_cases placed : updateVersion ≤ version
  · have written : writeUpdate version = Wire.optional ConfigUpdate.write :=
      funext fun _ => if_pos placed
    rw [readUpdate, updatePresence, if_pos placed, if_pos placed, written]
    exact ConfigUpdate.canonical_read.optional
  · have written : writeUpdate version = fun _ => [] := funext fun _ => if_neg placed
    rw [readUpdate, updatePresence, if_neg placed, if_neg placed, written]
    exact .pure none

theorem upToPresence_read : read.UpToPresence presence write := by
  have fields (version : Int8) := Broker.upToPresence_read.vector.pair <|
    GroupNodes.canonical_read.upToPresence.pair <| GroupNodes.canonical_read.optional.pair <|
    Canonical.i64.upToPresence.pair (upToPresence_readUpdate version)
  have whole := UpToPresence.bind .i8 fields
  refine .of_eq ?_ ?_ (whole.map (f := fun (version, brokers, current, previous, revision, update) =>
    { version, brokers, current, previous, revision, update }) fun _ => ?_)
  · simp [read_eq, Reader.pair]
  · simp [presence, Reader.joined, Reader.skip]
  · simp only [write, writeUpdate, List.append_assoc]

theorem written_read (c : RaftConfig) :
    (c.Representable → read.Decodes c.write c) ∧
      ∀ input rest, read.run input = (.ok c, rest) →
        ∃ taken flags, input = taken ++ rest ∧ presence.Decodes taken flags ∧
          read.Decodes c.write c ∧ c.write.length = taken.length ∧
          (c.write = taken ↔ ∀ flag ∈ flags, flag = 0 ∨ flag = 1) :=
  ⟨Representable.decodes_write, fun input rest read => upToPresence_read input c rest read⟩

/-- A group whose only broker has a rack, with former members and an update, for examples. -/
def moving : RaftConfig where
  version := 4
  brokers := [{
    id := 1, kafkaEndpoints := [⟨"k", "h", 9092⟩], rpcAddress := "", rpcPort := 33145,
    rack := some "r", cores := 2, memory := 4, disk := 8, mountPaths := ["/"], etc := [("a", "b")] }]
  current := { voters := [⟨1, 7⟩], learners := [] }
  previous := some { voters := [], learners := [⟨2, -1⟩] }
  revision := 9
  update := some { replicasToAdd := [⟨3, 0⟩], replicasToRemove := [] }

theorem representable_moving : moving.Representable where
  brokers := by decide
  eachBroker := List.forall_mem_singleton.mpr
    { kafkaEndpoints := by decide
      eachEndpoint := List.forall_mem_singleton.mpr ⟨by decide, by decide⟩
      rpcAddress := by decide
      rack := fun _ present => Option.some.inj present ▸ by decide
      mountPaths := by decide
      eachMountPath := List.forall_mem_singleton.mpr (by decide)
      etc := by decide
      eachProperty := List.forall_mem_singleton.mpr ⟨by decide, by decide⟩ }
  current := ⟨by decide, by decide⟩
  previous := fun _ present => Option.some.inj present ▸ ⟨by decide, by decide⟩
  update := fun _ present => Option.some.inj present ▸ ⟨by decide, by decide⟩
  updatePlaced := fun _ => by decide

theorem written_read_moving :
    let taken := moving.write.set 31 7
    moving.Representable ∧ read.run (moving.write ++ [5]) = (.ok moving, [5]) ∧
      read.run (taken ++ [5]) = (.ok moving, [5]) ∧ presence.run taken = (.ok [7, 1, 1], []) ∧
      moving.write.length = taken.length ∧ moving.write ≠ taken := by
  intro taken
  have found : read.run (taken ++ [5]) = (.ok moving, [5]) := by decide +kernel
  have flagged : presence.run taken = (.ok [7, 1, 1], []) := by decide +kernel
  obtain ⟨_, flags, front, decodes, -, length, same⟩ := (written_read moving).2 _ _ found
  obtain rfl := List.append_cancel_right front
  have rack : 7 ∈ flags := by
    have read := decodes.run.symm.trans flagged
    cases read
    exact List.mem_cons_self
  refine ⟨representable_moving, (written_read moving).1 representable_moving [5], found, flagged,
    length, fun equal => ?_⟩
  exact absurd (same.mp equal 7 rack) (by decide)

end RaftConfig

end PartitionLog
