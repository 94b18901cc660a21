import PartitionLog.Batch.Header
import PartitionLog.Proofs.Wire

/-!
# The bytes of a header

A header and its 61 bytes determine each other: `ofBytes_write` and `write_ofBytes`. Taking the
fields one after another gives the same (`decodes_write`).
-/
namespace PartitionLog
open Bytes
open Reader (Decodes)

/-! ## Words -/

namespace Wire

theorem u32_inj (x y : UInt32) (same : u32 x = u32 y) : x = y := by
  have values := congrArg ofLittleEndian same
  rw [u32, u32, ofLittleEndian_littleEndian, ofLittleEndian_littleEndian] at values
  have boundX := x.toNat_lt
  have boundY := y.toNat_lt
  apply UInt32.toNat_inj.mp
  omega

theorem i32_inj (x y : Int32) (same : i32 x = i32 y) : x = y := by
  have words := u32_inj _ _ same
  rw [← x.toInt32_toUInt32, words, y.toInt32_toUInt32]

end Wire

/-! ## The header -/

namespace BatchHeader

theorem littleEndian_numberAt (bytes : Bytes) (start width : Nat)
    (room : start + width ≤ bytes.length) :
    littleEndian width (numberAt bytes start width) = (bytes.drop start).take width := by
  have full : ((bytes.drop start).take width).length = width := by
    rw [List.length_take, List.length_drop]
    omega
  have kept := littleEndian_ofLittleEndian ((bytes.drop start).take width)
  rw [full] at kept
  exact kept

theorem take_append_drop_add (bytes : Bytes) (start width : Nat) :
    (bytes.drop start).take width ++ bytes.drop (start + width) = bytes.drop start := by
  rw [← List.drop_drop, List.take_append_drop]

theorem write_ofBytes (bytes : Bytes) (full : bytes.length = size) :
    (ofBytes bytes).write = bytes := by
  have field (start width : Nat) (room : start + width ≤ 61) :
      littleEndian width (numberAt bytes start width) = (bytes.drop start).take width :=
    littleEndian_numberAt bytes start width (by rw [full]; exact room)
  have cut1 (n : Nat) : littleEndian 1 (n % 256) = littleEndian 1 n := littleEndian_mod 1 n
  have cut2 (n : Nat) : littleEndian 2 (n % 65536) = littleEndian 2 n := littleEndian_mod 2 n
  have cut4 (n : Nat) : littleEndian 4 (n % 4294967296) = littleEndian 4 n := littleEndian_mod 4 n
  have cut8 (n : Nat) : littleEndian 8 (n % 18446744073709551616) = littleEndian 8 n :=
    littleEndian_mod 8 n
  have last : (bytes.drop 57).take 4 = bytes.drop 57 :=
    List.take_of_length_le (by simp [full, size])
  have join := take_append_drop_add bytes
  simp [write_eq, ofBytes, Wire.i8, Wire.i16, Wire.i32, Wire.i64, Wire.u8, Wire.u16,
    Wire.u32, Wire.u64, cut1, cut2, cut4, cut8, field]
  rw [last, join 53 4, join 51 2, join 43 8, join 35 8, join 27 8, join 23 4, join 21 2,
    join 17 4, join 16 1, join 8 8, join 4 4, List.take_append_drop]

theorem ofBytes_write (h : BatchHeader) : ofBytes h.write = h := by
  cases h
  simp only [ofBytes, numberAt, write_eq, Wire.i8, Wire.i16, Wire.i32, Wire.i64,
    Wire.u8, Wire.u16, Wire.u32, Wire.u64, List.append_assoc]
  simp [List.drop_append, List.drop_of_length_le, List.take_of_length_le,
    ofLittleEndian_littleEndian]

theorem decodes_write (h : BatchHeader) : read.Decodes h.write h := by
  refine .of_eq ?_ <| (Decodes.u32 h.headerCrc).bind <| (Decodes.i32 h.batchSize).bind <|
    (Decodes.i64 h.baseOffset).bind <| (Decodes.i8 h.batchType).bind <| (Decodes.u32 h.crc).bind <|
    (Decodes.i16 h.attrs).bind <| (Decodes.i32 h.lastOffsetDelta).bind <|
    (Decodes.i64 h.firstTimestamp).bind <| (Decodes.i64 h.maxTimestamp).bind <|
    (Decodes.i64 h.producerId).bind <| (Decodes.i16 h.producerEpoch).bind <|
    (Decodes.i32 h.baseSequence).bind <| (Decodes.i32 h.recordCount).bind_pure _
  simp only [write_eq, List.append_assoc]

theorem write_inj (h h' : BatchHeader) (same : h.write = h'.write) : h = h' := by
  rw [← ofBytes_write h, same, ofBytes_write]

end BatchHeader
end PartitionLog
