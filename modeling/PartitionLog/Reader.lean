import PartitionLog.Varint

/-!
# Reading fields from bytes

A reader takes a field from the front of the input and leaves the rest. It leaves a rest when it
fails too, so that reading can go on from there: fields of a fixed width and varints fail without
taking anything (`run_take`), and a field behind a length fails after the length.

Two framings occur. Record fields have a varint length, where zero and below stand for no bytes at
all; everything else has a 32-bit length or count, where a negative one is an error.
-/
namespace PartitionLog

def Reader (α : Type) : Type := Bytes → Except DecodeError α × Bytes

namespace Reader

variable {α β : Type}

def run (reader : Reader α) (input : Bytes) : Except DecodeError α × Bytes := reader input

instance : Monad Reader where
  pure value := fun input => (.ok value, input)
  bind reader next := fun input =>
    match reader input with
    | (.ok value, rest) => next value rest
    | (.error e, rest) => (.error e, rest)

@[simp] theorem run_pure (value : α) (input : Bytes) :
    (pure value : Reader α).run input = (.ok value, input) := rfl

theorem run_bind (reader : Reader α) (next : α → Reader β) (input : Bytes) :
    (reader >>= next).run input =
      match reader.run input with
      | (.ok value, rest) => (next value).run rest
      | (.error e, rest) => (.error e, rest) := rfl

theorem run_bind_ok {reader : Reader α} {next : α → Reader β} {input rest : Bytes} {value : α}
    (h : reader.run input = (.ok value, rest)) :
    (reader >>= next).run input = (next value).run rest := by
  rw [run_bind, h]

theorem run_bind_error {reader : Reader α} {next : α → Reader β} {input rest : Bytes}
    {e : DecodeError} (h : reader.run input = (.error e, rest)) :
    (reader >>= next).run input = (.error e, rest) := by
  rw [run_bind, h]

theorem id_map_run (reader : Reader α) (input : Bytes) :
    (id <$> reader).run input = reader.run input := by
  change (match reader.run input with
    | (.ok value, rest) => (Except.ok value, rest)
    | (.error e, rest) => (.error e, rest)) = reader.run input
  rcases reader.run input with ⟨_ | _, _⟩ <;> rfl

theorem bind_assoc_run {γ : Type} (reader : Reader α) (f : α → Reader β) (g : β → Reader γ)
    (input : Bytes) :
    (reader >>= f >>= g).run input = (reader >>= fun value => f value >>= g).run input := by
  simp only [run_bind]
  rcases reader.run input with ⟨_ | _, _⟩ <;> rfl

instance : LawfulMonad Reader :=
  LawfulMonad.mk' Reader (fun reader => funext (id_map_run reader)) (fun _ _ => rfl)
    (fun reader f g => funext (bind_assoc_run reader f g))

/-! ## Bytes -/

def fail (e : DecodeError) : Reader α := fun input => (.error e, input)

/-- The next `n` bytes. The input is measured only when it is too short. -/
def take (n : Nat) : Reader Bytes := fun input =>
  if (input.take n).length < n then (.error (.truncated n input.length), input)
  else (.ok (input.take n), input.drop n)

def rest : Reader Bytes := fun input => (.ok input, [])

theorem run_take (n : Nat) (input : Bytes) :
    (take n).run input =
      if n ≤ input.length then (.ok (input.take n), input.drop n)
      else (.error (.truncated n input.length), input) := by
  have short : (input.take n).length < n ↔ ¬ n ≤ input.length := by
    rw [List.length_take]
    omega
  by_cases h : n ≤ input.length <;>
    simp only [run, take, short, h, not_true, not_false_iff, if_true, if_false]

/-! ## Integers -/

def fixed (width : Nat) : Reader Nat := Bytes.ofLittleEndian <$> take width

def u8 : Reader UInt8 := UInt8.ofNat <$> fixed 1
def u16 : Reader UInt16 := UInt16.ofNat <$> fixed 2
def u32 : Reader UInt32 := UInt32.ofNat <$> fixed 4
def u64 : Reader UInt64 := UInt64.ofNat <$> fixed 8
def i8 : Reader Int8 := UInt8.toInt8 <$> u8
def i16 : Reader Int16 := UInt16.toInt16 <$> u16
def i32 : Reader Int32 := UInt32.toInt32 <$> u32
def i64 : Reader Int64 := UInt64.toInt64 <$> u64

def bool : Reader Bool := (· != 0) <$> u8

def varint : Reader Int64 := fun input =>
  match Varint.decode input with
  | .ok (value, length) => (.ok value, input.drop length)
  | .error e => (.error e, input)

/-! ## Fields of variable size -/

/-- Bytes behind a varint length; a length of zero or below stands for none. -/
def nullableBytes : Reader (Option Bytes) := do
  let length ← varint
  if length.toInt ≤ 0 then pure none else some <$> take length.toInt.toNat

def size : Reader Nat := do
  let length ← i32
  if length.toInt < 0 then fail (.negativeLength length.toInt) else pure length.toInt.toNat

def sizedBytes : Reader Bytes := size >>= take

def text : Reader String := do
  match String.fromUTF8? ⟨(← sizedBytes).toArray⟩ with
  | some value => pure value
  | none => fail .invalidUtf8

def optional (reader : Reader α) : Reader (Option α) := do
  if ← bool then some <$> reader else pure none

def replicate (reader : Reader α) : Nat → Reader (List α)
  | 0 => pure []
  | count + 1 => do
    let value ← reader
    let values ← replicate reader count
    pure (value :: values)

def vector (reader : Reader α) : Reader (List α) := size >>= replicate reader

end Reader
end PartitionLog
