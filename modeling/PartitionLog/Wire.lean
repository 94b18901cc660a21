import PartitionLog.Varint

/-!
# Writing fields to bytes

The written form of each field that `Reader` reads, as plain byte strings to be joined by `++`.
-/
namespace PartitionLog.Wire

variable {α : Type}

def u8 (v : UInt8) : Bytes := Bytes.littleEndian 1 v.toNat
def u16 (v : UInt16) : Bytes := Bytes.littleEndian 2 v.toNat
def u32 (v : UInt32) : Bytes := Bytes.littleEndian 4 v.toNat
def u64 (v : UInt64) : Bytes := Bytes.littleEndian 8 v.toNat
def i8 (v : Int8) : Bytes := u8 v.toUInt8
def i16 (v : Int16) : Bytes := u16 v.toUInt16
def i32 (v : Int32) : Bytes := u32 v.toUInt32
def i64 (v : Int64) : Bytes := u64 v.toUInt64

@[simp] theorem length_u8 (v : UInt8) : (u8 v).length = 1 := Bytes.length_littleEndian 1 _
@[simp] theorem length_u16 (v : UInt16) : (u16 v).length = 2 := Bytes.length_littleEndian 2 _
@[simp] theorem length_u32 (v : UInt32) : (u32 v).length = 4 := Bytes.length_littleEndian 4 _
@[simp] theorem length_u64 (v : UInt64) : (u64 v).length = 8 := Bytes.length_littleEndian 8 _
@[simp] theorem length_i8 (v : Int8) : (i8 v).length = 1 := length_u8 _
@[simp] theorem length_i16 (v : Int16) : (i16 v).length = 2 := length_u16 _
@[simp] theorem length_i32 (v : Int32) : (i32 v).length = 4 := length_u32 _
@[simp] theorem length_i64 (v : Int64) : (i64 v).length = 8 := length_u64 _

def bool (v : Bool) : Bytes := [if v then 1 else 0]

def varint (v : Int64) : Bytes := Varint.encode v

/-- A varint length and the bytes; absence is length -1, and reads back from length 0 too. -/
def nullableBytes : Option Bytes → Bytes
  | none => varint (-1)
  | some bs => varint (Int64.ofNat bs.length) ++ bs

def sizedBytes (bs : Bytes) : Bytes := i32 (Int32.ofNat bs.length) ++ bs

def text (s : String) : Bytes := sizedBytes s.toUTF8.data.toList

def optional (write : α → Bytes) : Option α → Bytes
  | none => bool false
  | some value => bool true ++ write value

def vector (write : α → Bytes) (values : List α) : Bytes :=
  i32 (Int32.ofNat values.length) ++ values.flatMap write

end PartitionLog.Wire
