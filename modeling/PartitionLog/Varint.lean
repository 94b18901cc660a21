import PartitionLog.Bytes
import PartitionLog.DecodeError

/-!
# Variable-length integers

A 64-bit number is written in groups of seven bits, lowest first; the high bit of a byte says that
another group follows. Signed numbers are interleaved first (0, -1, 1, -2, …), so that small
magnitudes stay short. Ten groups hold every 64-bit number, and no encoding is longer. How long one
is can be told without writing it: `length_encode`.
-/
namespace PartitionLog.Varint

def maxLength : Nat := 10

/-- Interleaves the signed numbers: `2v` for `v ≥ 0`, and `-2v - 1` below zero. -/
def zigzag (v : Int64) : UInt64 := (v <<< 1 ^^^ v >>> 63).toUInt64

def unzigzag (n : UInt64) : Int64 := (n >>> 1).toInt64 ^^^ -(n &&& 1).toInt64

/-! ## Groups of seven bits -/

def lowGroup (n : UInt64) : UInt8 := (n &&& 0x7F).toUInt8

/-- At most `limit` groups of `n`, every byte but the last with its high bit set. -/
def groups : Nat → UInt64 → Bytes
  | 0, _ => []
  | limit + 1, n =>
    if n >>> 7 = 0 then [lowGroup n] else (lowGroup n ||| 0x80) :: groups limit (n >>> 7)

def countGroups : Nat → UInt64 → Nat
  | 0, _ => 0
  | limit + 1, n => if n < 0x80 then 1 else countGroups limit (n >>> 7) + 1

theorem toNat_shiftRight_seven (n : UInt64) : (n >>> 7).toNat = n.toNat / 128 := by
  rw [UInt64.toNat_shiftRight]
  exact Nat.shiftRight_eq_div_pow n.toNat 7

theorem shiftRight_seven_eq_zero_iff (n : UInt64) : n >>> 7 = 0 ↔ n.toNat < 128 := by
  rw [← UInt64.toNat_inj, toNat_shiftRight_seven]
  change n.toNat / 128 = 0 ↔ n.toNat < 128
  omega

theorem length_groups (limit : Nat) (n : UInt64) :
    (groups limit n).length = countGroups limit n := by
  induction limit generalizing n with
  | zero => rfl
  | succ limit ih =>
    have last : n >>> 7 = 0 ↔ n < 0x80 := shiftRight_seven_eq_zero_iff n
    rw [groups, countGroups]
    by_cases small : n < 0x80
    · rw [if_pos small, if_pos (last.mpr small), List.length_singleton]
    · rw [if_neg small, if_neg (mt last.mp small), List.length_cons, ih]

/-! ## Encoding and decoding -/

def encodeUnsigned (n : UInt64) : Bytes := groups maxLength n

def encode (v : Int64) : Bytes := encodeUnsigned (zigzag v)

def length (v : Int64) : Nat := countGroups maxLength (zigzag v)

@[simp] theorem length_encode (v : Int64) : (encode v).length = length v :=
  length_groups maxLength (zigzag v)

/-- Reads on behind `read` groups, which are the low bits `low` of the number. -/
def decodeFrom (read : Nat) (low : UInt64) : Bytes → Except DecodeError (UInt64 × Nat)
  | [] =>
    if maxLength ≤ read then .error .varintOverflow else .error (.truncated (read + 1) read)
  | b :: bs =>
    if maxLength ≤ read then .error .varintOverflow
    else
      let n := low ||| (b &&& 0x7F).toUInt64 <<< UInt64.ofNat (7 * read)
      if b &&& 0x80 = 0 then .ok (n, read + 1) else decodeFrom (read + 1) n bs

/-- The number at the front of the input, cut to 64 bits, and the length of its encoding. -/
def decodeUnsigned (input : Bytes) : Except DecodeError (UInt64 × Nat) := decodeFrom 0 0 input

def decode (input : Bytes) : Except DecodeError (Int64 × Nat) :=
  (decodeUnsigned input).map fun (n, length) => (unzigzag n, length)

end PartitionLog.Varint
