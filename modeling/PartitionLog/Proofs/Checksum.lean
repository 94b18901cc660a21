import Mathlib.Algebra.Ring.Nat
import PartitionLog.Checksum
import PartitionLog.Proofs.Bytes.Damage

/-!
# What a checksum detects

Bytes that differ within a window of four have different checksums, whatever stands around the
window and whatever the checksum continues: `extend_ne_of_burst`. A shift of the remainder is linear
in exclusive or, and a remainder that is small after it was twice as large before it
(`toNat_of_shiftOut_lt`), so a difference that the window has brought in cannot be gone at its end.
-/
namespace PartitionLog.Checksum

/-! ## One shift -/

theorem low_bit (x : UInt32) : x &&& 1 = 0 ∨ x &&& 1 = 1 := by
  have value : (x &&& 1).toNat = x.toNat % 2 := by simp
  have parity : x.toNat % 2 = 0 ∨ x.toNat % 2 = 1 := by omega
  cases parity with
  | inl even => exact .inl (UInt32.toNat_inj.mp (value.trans even))
  | inr odd => exact .inr (UInt32.toNat_inj.mp (value.trans odd))

theorem low_bit_xor (x y : UInt32) : (x ^^^ y) &&& 1 = (x &&& 1) ^^^ (y &&& 1) := by
  apply UInt32.toNat_inj.mp
  simp only [UInt32.toNat_and, UInt32.toNat_xor]
  exact Nat.and_xor_distrib_right

theorem shiftOut_xor (x y : UInt32) : shiftOut (x ^^^ y) = shiftOut x ^^^ shiftOut y := by
  have cancel (u v : UInt32) : u ^^^ polynomial ^^^ (v ^^^ polynomial) = u ^^^ v := by
    rw [UInt32.xor_comm v, UInt32.xor_assoc, ← UInt32.xor_assoc polynomial, UInt32.xor_self,
      UInt32.zero_xor]
  unfold shiftOut
  rw [low_bit_xor, UInt32.shiftRight_xor]
  cases low_bit x with
  | inl evenX =>
    cases low_bit y with
    | inl evenY => simp [evenX, evenY]
    | inr oddY => simp [evenX, oddY, UInt32.xor_assoc]
  | inr oddX =>
    cases low_bit y with
    | inl evenY =>
      have swap (u v : UInt32) : u ^^^ v ^^^ polynomial = u ^^^ polynomial ^^^ v := by
        rw [UInt32.xor_assoc, UInt32.xor_comm v, ← UInt32.xor_assoc]
      simp [oddX, evenY, swap]
    | inr oddY => simp [oddX, oddY, cancel]

/-- The generator has the top bit, so what was shifted out shows there. -/
theorem toNat_of_shiftOut_lt (x : UInt32) (small : (shiftOut x).toNat < 2 ^ 31) :
    x.toNat = 2 * (shiftOut x).toNat := by
  unfold shiftOut at *
  cases low_bit x with
  | inl even =>
    have parity : x.toNat % 2 = 0 := by simpa using congrArg UInt32.toNat even
    have halved : (x >>> 1).toNat = x.toNat / 2 := by simp [Nat.shiftRight_eq_div_pow]
    rw [if_neg (by simp [even]), halved]
    omega
  | inr odd =>
    rw [if_pos odd] at small
    have top : ((x >>> 1) ^^^ polynomial).toNat.testBit 31 = true := by
      have below : (x >>> 1).toNat < 2 ^ 31 := by
        have bound := x.toNat_lt
        simp [Nat.shiftRight_eq_div_pow]
        omega
      have clear : (x >>> 1).toNat.testBit 31 = false := Nat.testBit_lt_two_pow below
      have set : polynomial.toNat.testBit 31 = true := by decide
      rw [UInt32.toNat_xor, Nat.testBit_xor, clear, set]
      rfl
    exact absurd (Nat.ge_two_pow_of_testBit top) (Nat.not_le_of_lt small)

/-! ## Several shifts -/

theorem shiftsOut_xor (n : Nat) (x y : UInt32) :
    shiftsOut n (x ^^^ y) = shiftsOut n x ^^^ shiftsOut n y := by
  induction n generalizing x y with
  | zero => rfl
  | succ n ih => rw [shiftsOut, shiftOut_xor, ih, shiftsOut, shiftsOut]

theorem toNat_of_shiftsOut_lt (n width : Nat) (x : UInt32)
    (small : (shiftsOut n x).toNat < 2 ^ width) (room : n + width ≤ 32) :
    x.toNat = 2 ^ n * (shiftsOut n x).toNat := by
  induction n generalizing x with
  | zero => simp [shiftsOut]
  | succ n ih =>
    rw [shiftsOut] at small ⊢
    have rest := ih (shiftOut x) small (by omega)
    have bound : (shiftOut x).toNat < 2 ^ 31 := by
      calc (shiftOut x).toNat
        _ = 2 ^ n * (shiftsOut n (shiftOut x)).toNat := rest
        _ < 2 ^ n * 2 ^ width := Nat.mul_lt_mul_of_pos_left small (Nat.two_pow_pos n)
        _ = 2 ^ (n + width) := (Nat.pow_add 2 n width).symm
        _ ≤ 2 ^ 31 := Nat.pow_le_pow_right (by omega) (by omega)
    rw [toNat_of_shiftOut_lt x bound, rest, Nat.pow_succ', Nat.mul_assoc]

/-! ## Bytes -/

theorem absorb_xor (x y : UInt32) (b c : UInt8) :
    absorb x b ^^^ absorb y c = shiftsOut 8 ((x ^^^ y) ^^^ (b ^^^ c).toUInt32) := by
  rw [absorb, absorb, ← shiftsOut_xor, UInt8.toUInt32_xor]
  congr 1
  rw [UInt32.xor_assoc x, UInt32.xor_assoc x, ← UInt32.xor_assoc _ y, UInt32.xor_comm _ y,
    UInt32.xor_assoc y]

theorem absorb_inj (x y : UInt32) (b : UInt8) (same : absorb x b = absorb y b) : x = y := by
  have gone : shiftsOut 8 (x ^^^ y) = 0 := by
    have both := absorb_xor x y b b
    rw [same] at both
    simpa using both.symm
  have zero := toNat_of_shiftsOut_lt 8 0 (x ^^^ y) (by simp [gone]) (by omega)
  rw [gone] at zero
  exact UInt32.xor_eq_zero_iff.mp (UInt32.toNat_inj.mp zero)

theorem foldl_absorb_inj (bs : Bytes) (x y : UInt32)
    (same : bs.foldl absorb x = bs.foldl absorb y) : x = y := by
  induction bs generalizing x y with
  | nil => exact same
  | cons b bs ih => exact absorb_inj x y b (ih _ _ same)

/-- A byte adds its own width to the difference of two remainders, and nothing else. -/
theorem difference_of_absorb (x y : UInt32) (b c : UInt8) (width : Nat) (room : 8 + width ≤ 32)
    (small : (absorb x b ^^^ absorb y c).toNat < 2 ^ width) :
    (x ^^^ y).toNat < 2 ^ (8 + width) ∧ (x = y → b = c) := by
  rw [absorb_xor] at small
  have before := toNat_of_shiftsOut_lt 8 width _ small room
  have byte : (b ^^^ c).toUInt32.toNat < 2 ^ 8 := (b ^^^ c).toNat_lt
  constructor
  · have joined : ((x ^^^ y) ^^^ (b ^^^ c).toUInt32).toNat < 2 ^ (8 + width) := by
      rw [before, Nat.pow_add]
      exact Nat.mul_lt_mul_of_pos_left small (by decide)
    have apart : x ^^^ y = ((x ^^^ y) ^^^ (b ^^^ c).toUInt32) ^^^ (b ^^^ c).toUInt32 := by
      rw [UInt32.xor_assoc (x ^^^ y), UInt32.xor_self, UInt32.xor_zero]
    rw [apart, UInt32.toNat_xor]
    exact Nat.xor_lt_two_pow joined
      (Nat.lt_of_lt_of_le byte (Nat.pow_le_pow_right (by omega) (Nat.le_add_right 8 width)))
  · intro same
    subst same
    -- The difference is now a byte and a multiple of 256.
    rw [UInt32.xor_self, UInt32.zero_xor] at before
    have none : (b ^^^ c).toUInt32.toNat = 0 := by omega
    exact UInt8.xor_eq_zero_iff.mp (UInt8.toNat_inj.mp none)

/-- Remainders that meet after at most four bytes differ by no more than these bytes brought in. -/
theorem difference_of_foldl_absorb_eq (window window' : Bytes) (x y : UInt32)
    (lengths : window.length = window'.length) (short : window.length ≤ 4)
    (met : window.foldl absorb x = window'.foldl absorb y) :
    (x ^^^ y).toNat < 2 ^ (8 * window.length) ∧ (x = y → window = window') := by
  induction window generalizing window' x y with
  | nil =>
    have nil := List.eq_nil_of_length_eq_zero lengths.symm
    subst nil
    simp only [List.foldl_nil] at met
    simp [met]
  | cons b window ih =>
    cases window' with
    | nil => simp at lengths
    | cons c window' =>
      simp only [List.length_cons, Nat.add_right_cancel_iff] at lengths short
      obtain ⟨small, rest⟩ := ih window' (absorb x b) (absorb y c) lengths (by omega) met
      obtain ⟨wider, first⟩ := difference_of_absorb x y b c _ (by omega) small
      constructor
      · rw [List.length_cons, Nat.mul_add, Nat.add_comm]
        exact wider
      · intro same
        have equal := first same
        subst same equal
        rw [rest rfl]

theorem extend_ne_of_burst (checksum : UInt32) (original damaged : Bytes)
    (burst : Bytes.Burst 4 original damaged) :
    extend checksum original ≠ extend checksum damaged := by
  obtain ⟨front, window, window', back, rfl, rfl, lengths, short, differ⟩ := burst
  intro same
  have met := UInt32.not_inj.mp same
  simp only [List.foldl_append] at met
  have inside := foldl_absorb_inj back _ _ met
  exact differ ((difference_of_foldl_absorb_eq window window' _ _ lengths short inside).2 rfl)

end PartitionLog.Checksum
