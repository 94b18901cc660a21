import Mathlib.Data.List.Basic
import PartitionLog.Raft.Config

/-!
# Configurations by their JSON

Sorting the fields of an object keeps what each field holds (`Json.field?_sorted`). So a
configuration can be told from its JSON with sorted fields: `RaftConfig.tells_toJson`.
-/
namespace PartitionLog

theorem lookup_map {κ α β : Type} [BEq κ] (f : α → β) (key : κ) (entries : List (κ × α)) :
    (entries.map fun entry => (entry.1, f entry.2)).lookup key = (entries.lookup key).map f := by
  induction entries with
  | nil => rfl
  | cons entry entries ih =>
    obtain ⟨key', value⟩ := entry
    rw [List.map_cons, List.lookup_cons, List.lookup_cons, ih]
    cases key == key' <;> rfl

namespace Json

/-! ## Fields -/

def field? (name : String) : Json → Option Json
  | obj fields => SortedMap.get? name fields
  | _ => none

theorem sortedFields_eq (done : SortedMap String Json) (fields : List (String × Json)) :
    sortedFields done fields = (fields.map fun field => (field.1, sorted field.2)).foldl
      (fun map field => SortedMap.insert field.1 field.2 map) done := by
  induction fields generalizing done with
  | nil => rfl
  | cons field fields ih => exact ih _

theorem field?_sorted (name : String) (fields : List (String × Json)) :
    (obj fields).sorted.field? name = (fields.reverse.lookup name).map sorted := by
  have whole : (obj fields).sorted =
      obj (SortedMap.ofList (fields.map fun field => (field.1, sorted field.2))) :=
    congrArg obj (sortedFields_eq [] fields)
  rw [whole, field?, SortedMap.get?_ofList, ← List.map_reverse, lookup_map]

/-- What objects have in a field is the same if the objects are. -/
theorem sorted_eq_of_lookup {fields fields' : List (String × Json)} {value value' : Json}
    (same : (obj fields).sorted = (obj fields').sorted) (name : String)
    (found : fields.reverse.lookup name = some value)
    (found' : fields'.reverse.lookup name = some value') : value.sorted = value'.sorted := by
  have field := congrArg (field? name) same
  rw [field?_sorted, field?_sorted, found, found'] at field
  exact Option.some.inj field

theorem sorted_arr (items : List Json) : (arr items).sorted = arr (items.map sorted) := by
  have each : sortedItems items = items.map sorted := by
    induction items with
    | nil => rfl
    | cons item items ih => rw [sortedItems, ih, List.map_cons]
  rw [sorted, each]

/-! ## What sorted JSON tells -/

/-- Different values have different JSON, in whatever order the fields are written. -/
def Tells {α : Type} (write : α → Json) : Prop :=
  Function.Injective fun value => (write value).sorted

namespace Tells

variable {α : Type} {write : α → Json}

theorem str : Tells Json.str := fun _ _ same => Json.str.inj same

theorem num {toInt : α → Int} (injective : ∀ {a b}, toInt a = toInt b ↔ a = b) :
    Tells fun value => Json.num (toInt value) := fun _ _ same => injective.mp (Json.num.inj same)

theorem ofNat {toNat : α → Nat} (injective : ∀ {a b}, toNat a = toNat b ↔ a = b) :
    Tells fun value => Json.ofNat (toNat value) := fun _ _ same =>
  injective.mp (Int.ofNat.inj (Json.num.inj same))

theorem ofList (tells : Tells write) : Tells (Json.ofList write) := by
  intro values values' same
  simp only [Json.ofList, sorted_arr, List.map_map] at same
  exact List.map_injective_iff.mpr tells (arr.inj same)

theorem ofOption (tells : Tells write) (written : ∀ value, (write value).sorted ≠ null) :
    Tells (Json.ofOption write) := by
  intro value value' same
  match value, value' with
  | none, none => rfl
  | none, some value' => exact absurd same.symm (written value')
  | some value, none => exact absurd same (written value)
  | some value, some value' => exact congrArg some (tells same)

end Tells
end Json

/-! ## Configurations -/

open Json

theorem Vnode.tells_toJson : Tells toJson := by
  rintro ⟨id, revision⟩ ⟨id', revision'⟩ same
  obtain rfl := Tells.num Int32.toInt_inj (sorted_eq_of_lookup same "id" rfl rfl)
  obtain rfl := Tells.num Int64.toInt_inj (sorted_eq_of_lookup same "revision" rfl rfl)
  rfl

theorem Endpoint.tells_toJson : Tells toJson := by
  rintro ⟨name, address, port⟩ ⟨name', address', port'⟩ same
  obtain rfl := Tells.str (sorted_eq_of_lookup same "name" rfl rfl)
  obtain rfl := Tells.str (sorted_eq_of_lookup same "address" rfl rfl)
  obtain rfl := Tells.ofNat UInt16.toNat_inj (sorted_eq_of_lookup same "port" rfl rfl)
  rfl

theorem Broker.tells_property :
    Tells fun property : String × String => .arr [.str property.1, .str property.2] := by
  rintro ⟨name, value⟩ ⟨name', value'⟩ same
  cases same
  rfl

theorem Broker.tells_toJson : Tells toJson := by
  rintro ⟨id, endpoints, address, port, rack, cores, memory, disk, paths, etc⟩
    ⟨id', endpoints', address', port', rack', cores', memory', disk', paths', etc'⟩ same
  obtain rfl := Tells.num Int32.toInt_inj (sorted_eq_of_lookup same "id" rfl rfl)
  obtain rfl := Endpoint.tells_toJson.ofList (sorted_eq_of_lookup same "kafka_endpoints" rfl rfl)
  obtain rfl := Tells.str (sorted_eq_of_lookup same "rpc_address" rfl rfl)
  obtain rfl := Tells.ofNat UInt16.toNat_inj (sorted_eq_of_lookup same "rpc_port" rfl rfl)
  obtain rfl := Tells.str.ofOption nofun (sorted_eq_of_lookup same "rack" rfl rfl)
  obtain rfl := Tells.ofNat UInt32.toNat_inj (sorted_eq_of_lookup same "cores" rfl rfl)
  obtain rfl := Tells.ofNat UInt32.toNat_inj (sorted_eq_of_lookup same "memory" rfl rfl)
  obtain rfl := Tells.ofNat UInt32.toNat_inj (sorted_eq_of_lookup same "disk" rfl rfl)
  obtain rfl := Tells.str.ofList (sorted_eq_of_lookup same "mount_paths" rfl rfl)
  obtain rfl := Broker.tells_property.ofList (sorted_eq_of_lookup same "etc" rfl rfl)
  rfl

theorem GroupNodes.tells_toJson : Tells toJson := by
  rintro ⟨voters, learners⟩ ⟨voters', learners'⟩ same
  obtain rfl := Vnode.tells_toJson.ofList (sorted_eq_of_lookup same "voters" rfl rfl)
  obtain rfl := Vnode.tells_toJson.ofList (sorted_eq_of_lookup same "learners" rfl rfl)
  rfl

theorem ConfigUpdate.tells_toJson : Tells toJson := by
  rintro ⟨added, removed⟩ ⟨added', removed'⟩ same
  obtain rfl := Vnode.tells_toJson.ofList (sorted_eq_of_lookup same "replicas_to_add" rfl rfl)
  obtain rfl := Vnode.tells_toJson.ofList (sorted_eq_of_lookup same "replicas_to_remove" rfl rfl)
  rfl

namespace RaftConfig

theorem update_eq_of_sorted_eq {c c' : RaftConfig} (same : c.toJson.sorted = c'.toJson.sorted) :
    c.update = c'.update := by
  obtain ⟨version, brokers, current, previous, revision, update⟩ := c
  obtain ⟨version', brokers', current', previous', revision', update'⟩ := c'
  have field := congrArg (field? "configuration_update") same
  simp only [toJson, field?_sorted] at field
  match update, update' with
  | none, none => rfl
  | none, some update' => cases field
  | some update, none => cases field
  | some update, some update' =>
    exact congrArg some (ConfigUpdate.tells_toJson (Option.some.inj field))

theorem tells_toJson : Tells toJson := by
  rintro ⟨version, brokers, current, previous, revision, update⟩
    ⟨version', brokers', current', previous', revision', update'⟩ same
  obtain rfl : update = update' := update_eq_of_sorted_eq same
  -- The fields in front of the update are the same ones with it and without it.
  cases update
  all_goals
    obtain rfl := Tells.num Int8.toInt_inj (sorted_eq_of_lookup same "version" rfl rfl)
    obtain rfl := Broker.tells_toJson.ofList (sorted_eq_of_lookup same "brokers" rfl rfl)
    obtain rfl := GroupNodes.tells_toJson (sorted_eq_of_lookup same "current_config" rfl rfl)
    obtain rfl := GroupNodes.tells_toJson.ofOption nofun
      (sorted_eq_of_lookup same "prev_config" rfl rfl)
    obtain rfl := Tells.num Int64.toInt_inj (sorted_eq_of_lookup same "revision" rfl rfl)
    rfl

end RaftConfig
end PartitionLog
