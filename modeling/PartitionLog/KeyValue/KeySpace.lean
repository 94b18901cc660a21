import PartitionLog.Bytes

/-!
# Key spaces

The first byte of a stored key says what the rest of it means.
-/
namespace PartitionLog.KeyValue

inductive KeySpace
  | testing
  | consensus
  | storage
  | cluster
  | unknown (tag : Int8)
  deriving DecidableEq, Repr

namespace KeySpace

def ofTag (tag : Int8) : KeySpace :=
  if tag = 0 then testing
  else if tag = 1 then consensus
  else if tag = 2 then storage
  else if tag = 3 then cluster
  else unknown tag

def tag : KeySpace → Int8
  | testing => 0
  | consensus => 1
  | storage => 2
  | cluster => 3
  | unknown tag => tag

def name : KeySpace → String
  | testing => "testing"
  | consensus => "consensus"
  | storage => "storage"
  | cluster => "cluster"
  | unknown _ => "unknown"

def rank : KeySpace → Nat
  | testing => 0
  | consensus => 1
  | storage => 2
  | cluster => 3
  | unknown _ => 4

@[simp] theorem tag_ofTag (t : Int8) : (ofTag t).tag = t := by
  unfold ofTag
  split
  · rename_i h
    exact h.symm
  split
  · rename_i h
    exact h.symm
  split
  · rename_i h
    exact h.symm
  split
  · rename_i h
    exact h.symm
  · rfl

end KeySpace

structure StoredKey where
  space : KeySpace
  buffer : Bytes
  deriving DecidableEq, Repr

/-- By space, the unknown ones by their tags, and then by the bytes. -/
instance : Ord StoredKey where
  compare a b :=
    (compare a.space.rank b.space.rank).then
      ((compare a.space.tag b.space.tag).then (compare a.buffer b.buffer))

end PartitionLog.KeyValue
