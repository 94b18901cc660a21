import Mathlib.Algebra.Ring.Nat
import PartitionLog.Bytes

/-!
# The range of fixed-width integers

A layout of some width keeps a number up to the power of 256 of that width
(`ofLittleEndian_littleEndian`), and stands for a number below that power (`ofLittleEndian_lt`).
-/
namespace PartitionLog.Bytes

theorem ofLittleEndian_littleEndian (width n : Nat) :
    ofLittleEndian (littleEndian width n) = n % 256 ^ width := by
  induction width generalizing n with
  | zero => simp [littleEndian, ofLittleEndian, Nat.mod_one]
  | succ width ih =>
    rw [littleEndian, ofLittleEndian, ih, UInt8.toNat_ofNat']
    change n % 256 + 256 * (n / 256 % 256 ^ width) = _
    rw [Nat.pow_succ', Nat.mod_mul]

theorem ofLittleEndian_lt (bs : Bytes) : ofLittleEndian bs < 256 ^ bs.length := by
  induction bs with
  | nil => simp [ofLittleEndian]
  | cons b bs ih =>
    have hb : b.toNat < 256 := b.toNat_lt
    rw [ofLittleEndian, List.length_cons, Nat.pow_succ']
    omega

theorem littleEndian_mod (width n : Nat) :
    littleEndian width (n % 256 ^ width) = littleEndian width n := by
  have kept := littleEndian_ofLittleEndian (littleEndian width n)
  rw [length_littleEndian, ofLittleEndian_littleEndian] at kept
  exact kept

end PartitionLog.Bytes
