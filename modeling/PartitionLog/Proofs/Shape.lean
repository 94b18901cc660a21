import PartitionLog.Proofs.Canonical
import PartitionLog.Shape

/-!
# Fields of every shape read back

A field of any shape comes back from its bytes, wherever they stand (`run_read_write`). Only an
empty byte string behind a varint length does not: it is read as an absent one, which takes one byte
as well.
-/
namespace PartitionLog.Shape
open Reader (Decodes)

/-- Only the rest of the input does not say where it ends. -/
def Delimited : Shape → Prop
  | rest => False
  | optional inner | vector inner => inner.Delimited
  | _ => True

/-- Every length and every count has a place in its prefix. -/
def Representable : (shape : Shape) → shape.Value → Prop
  -- A varint has room for the length of every byte string in memory, but not of every list.
  | nullableBytes, bs? => ∀ bs ∈ bs?, bs.length < 2 ^ 63
  | sizedBytes, bs => bs.length < 2 ^ 31
  | text, s => s.utf8ByteSize < 2 ^ 31
  | ntp, name => name.ns.utf8ByteSize < 2 ^ 31 ∧ name.topic.utf8ByteSize < 2 ^ 31
  | bytes count, bs => bs.length = count
  | optional inner, value? => ∀ value ∈ value?, inner.Representable value
  | vector inner, values => values.length < 2 ^ 31 ∧ ∀ value ∈ values, inner.Representable value
  | _, _ => True

def WithoutEmpty : (shape : Shape) → shape.Value → Prop
  | nullableBytes, bs? => bs? ≠ some []
  | optional inner, value? => ∀ value ∈ value?, inner.WithoutEmpty value
  | vector inner, values => ∀ value ∈ values, inner.WithoutEmpty value
  | _, _ => True

def asWritten : (shape : Shape) → shape.Value → shape.Value
  | nullableBytes, bs? => bs?.filter (· ≠ [])
  | optional inner, value? => value?.map inner.asWritten
  | vector inner, values => values.map inner.asWritten
  | _, value => value

theorem asWritten_eq_self_iff (shape : Shape) (value : shape.Value) :
    shape.asWritten value = value ↔ shape.WithoutEmpty value := by
  induction shape with
  | nullableBytes => rcases value with _ | _ | _ <;> simp [asWritten, WithoutEmpty]
  | optional inner ih =>
    cases value with
    | none => simp [asWritten, WithoutEmpty]
    | some value => simpa [asWritten, WithoutEmpty] using ih value
  | vector inner ih =>
    calc value.map inner.asWritten = value
      _ ↔ value.map inner.asWritten = value.map id := by rw [List.map_id]
      _ ↔ ∀ x ∈ value, inner.asWritten x = x := List.map_inj_left
      _ ↔ ∀ x ∈ value, inner.WithoutEmpty x := forall₂_congr fun x _ => ih x
  | _ => simp [asWritten, WithoutEmpty]

theorem length_write_asWritten (shape : Shape) (value : shape.Value) :
    (shape.write (shape.asWritten value)).length = (shape.write value).length := by
  induction shape with
  | nullableBytes => rcases value with _ | _ | _ <;> rfl
  | optional inner ih =>
    cases value with
    | none => rfl
    | some value =>
      simp only [write, asWritten, Option.map_some, Wire.optional, List.length_append, ih value]
  | vector inner ih =>
    simp only [write, asWritten, Wire.vector, List.length_append, List.length_map,
      List.flatMap_map, List.length_flatMap, ih]
  | _ => rfl

theorem decodes_write (shape : Shape) (delimited : shape.Delimited) {value : shape.Value}
    (fits : shape.Representable value) :
    shape.read.Decodes (shape.write value) (shape.asWritten value) := by
  induction shape with
  | u8 => exact Decodes.u8 value
  | u16 => exact Decodes.u16 value
  | u32 => exact Decodes.u32 value
  | u64 => exact Decodes.u64 value
  | i8 => exact Decodes.i8 value
  | i16 => exact Decodes.i16 value
  | i32 => exact Decodes.i32 value
  | i64 => exact Decodes.i64 value
  | bool => exact Decodes.bool value
  | varint => exact Decodes.varint value
  | nullableBytes => exact Decodes.nullableBytes value fits
  | sizedBytes => exact Decodes.sizedBytes fits
  | text => exact Decodes.text fits
  | ntp => exact Ntp.decodes_write fits.1 fits.2
  | vnode => exact Vnode.decodes_write value
  | bytes count =>
    have exactly (bs : Bytes) (sized : bs.length = count) : (Reader.take count).Decodes bs bs :=
      sized ▸ Decodes.take bs
    exact exactly value fits
  | rest => exact delimited.elim
  | optional inner ih =>
    exact Decodes.optional value fun x present => ih delimited (fits x present)
  | vector inner ih =>
    exact Decodes.vector fits.1 fun x member => ih delimited (fits.2 x member)

theorem run_read_write (shape : Shape) (delimited : shape.Delimited) (value : shape.Value)
    (fits : shape.Representable value) (before following : Bytes) :
    shape.read.run ((before ++ shape.write value ++ following).drop before.length) =
        (.ok (shape.asWritten value), following) ∧
      (shape.asWritten value = value ↔ shape.WithoutEmpty value) ∧
      (shape.write (shape.asWritten value)).length = (shape.write value).length := by
  have decodes := shape.decodes_write delimited fits
  refine ⟨?_, shape.asWritten_eq_self_iff value, shape.length_write_asWritten value⟩
  rw [List.append_assoc, List.drop_left, decodes following]

theorem run_read_write_nested :
    let shape := vector (optional nullableBytes)
    let value : shape.Value := [none, some none, some (some []), some (some [1, 2])]
    shape.Delimited ∧ shape.Representable value ∧
      shape.read.run (([7, 8] ++ shape.write value ++ [9]).drop 2) =
        (.ok [none, some none, some none, some (some [1, 2])], [9]) ∧
      ¬ shape.WithoutEmpty value := by
  intro shape value
  have delimited : shape.Delimited := trivial
  have fits : shape.Representable value := by simp [shape, value, Representable]
  obtain ⟨read, same, -⟩ := run_read_write shape delimited value fits [7, 8] [9]
  exact ⟨delimited, fits, read, fun without => absurd (same.mpr without) (by decide)⟩

end PartitionLog.Shape
