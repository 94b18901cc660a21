import PartitionLog.Ntp
import PartitionLog.Raft.Vnode

/-!
# Shapes of fields

A shape describes a field: a primitive of the formats, or an optional field or a vector of another
shape. `Shape.read` and `Shape.write` are the two codecs of a shape, and every type of field that
the formats are made of is one of them.
-/
namespace PartitionLog

inductive Shape
  | u8 | u16 | u32 | u64 | i8 | i16 | i32 | i64 | bool | varint
  | nullableBytes | sizedBytes | text | ntp | vnode
  /-- Exactly `count` bytes, without a length. -/
  | bytes (count : Nat)
  /-- Every byte up to the end. -/
  | rest
  | optional (inner : Shape)
  | vector (inner : Shape)
  deriving DecidableEq, Repr

namespace Shape

abbrev Value : Shape → Type
  | u8 => UInt8
  | u16 => UInt16
  | u32 => UInt32
  | u64 => UInt64
  | i8 => Int8
  | i16 => Int16
  | i32 => Int32
  | i64 | varint => Int64
  | bool => Bool
  | nullableBytes => Option Bytes
  | sizedBytes | bytes _ | rest => Bytes
  | text => String
  | ntp => Ntp
  | vnode => Vnode
  | optional inner => Option inner.Value
  | vector inner => List inner.Value

def read : (shape : Shape) → Reader shape.Value
  | u8 => Reader.u8
  | u16 => Reader.u16
  | u32 => Reader.u32
  | u64 => Reader.u64
  | i8 => Reader.i8
  | i16 => Reader.i16
  | i32 => Reader.i32
  | i64 => Reader.i64
  | bool => Reader.bool
  | varint => Reader.varint
  | nullableBytes => Reader.nullableBytes
  | sizedBytes => Reader.sizedBytes
  | text => Reader.text
  | ntp => Ntp.read
  | vnode => Vnode.read
  | bytes count => Reader.take count
  | rest => Reader.rest
  | optional inner => Reader.optional inner.read
  | vector inner => Reader.vector inner.read

def write : (shape : Shape) → shape.Value → Bytes
  | u8 => Wire.u8
  | u16 => Wire.u16
  | u32 => Wire.u32
  | u64 => Wire.u64
  | i8 => Wire.i8
  | i16 => Wire.i16
  | i32 => Wire.i32
  | i64 => Wire.i64
  | bool => Wire.bool
  | varint => Wire.varint
  | nullableBytes => Wire.nullableBytes
  | sizedBytes => Wire.sizedBytes
  | text => Wire.text
  | ntp => Ntp.write
  | vnode => Vnode.write
  | bytes _ | rest => id
  | optional inner => Wire.optional inner.write
  | vector inner => Wire.vector inner.write

end Shape
end PartitionLog
