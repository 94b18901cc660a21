import PartitionLog.Bytes

/-!
# Damaged bytes

A burst changes bytes inside one short window. A flipped bit is the shortest burst there is
(`burst_flipBit`) and leaves alone every stretch that it is outside of.
-/
namespace PartitionLog.Bytes

/-- The same bytes but for a window of at most `width`, in which they differ. -/
def Burst (width : Nat) (original damaged : Bytes) : Prop :=
  ∃ front window window' back : Bytes,
    original = front ++ window ++ back ∧ damaged = front ++ window' ++ back ∧
      window.length = window'.length ∧ window.length ≤ width ∧ window ≠ window'

/-- Bits are counted from the lowest of the first byte. -/
def flipBit : Nat → Bytes → Bytes
  | _, [] => []
  | bit, b :: bs =>
    if bit < 8 then (b ^^^ UInt8.ofNat (1 <<< bit)) :: bs else b :: flipBit (bit - 8) bs

theorem Burst.mono {width width' : Nat} {original damaged : Bytes}
    (burst : Burst width original damaged) (wider : width ≤ width') :
    Burst width' original damaged := by
  obtain ⟨front, window, window', back, before, after, lengths, short, differ⟩ := burst
  exact ⟨front, window, window', back, before, after, lengths, Nat.le_trans short wider, differ⟩

theorem Burst.ne {width : Nat} {original damaged : Bytes} (burst : Burst width original damaged) :
    original ≠ damaged := by
  obtain ⟨front, window, window', back, rfl, rfl, _, _, differ⟩ := burst
  intro same
  exact differ (List.append_cancel_left (List.append_cancel_right same))

theorem Burst.length_eq {width : Nat} {original damaged : Bytes}
    (burst : Burst width original damaged) : original.length = damaged.length := by
  obtain ⟨front, window, window', back, rfl, rfl, lengths, _, _⟩ := burst
  simp [lengths]

/-! ## A flipped bit -/

@[simp] theorem length_flipBit (bit : Nat) (bs : Bytes) : (flipBit bit bs).length = bs.length := by
  induction bs generalizing bit with
  | nil => rfl
  | cons b bs ih =>
    rw [flipBit]
    split
    · rfl
    · rw [List.length_cons, List.length_cons, ih]

theorem flipBit_flipBit (bit : Nat) (bs : Bytes) : flipBit bit (flipBit bit bs) = bs := by
  induction bs generalizing bit with
  | nil => rfl
  | cons b bs ih =>
    by_cases first : bit < 8
    · have cancel : b ^^^ UInt8.ofNat (1 <<< bit) ^^^ UInt8.ofNat (1 <<< bit) = b := by
        rw [UInt8.xor_assoc, UInt8.xor_self, UInt8.xor_zero]
      rw [flipBit, if_pos first, flipBit, if_pos first, cancel]
    · simp [flipBit, first, ih]

theorem flipBit_append_left (bit : Nat) (front back : Bytes) (inside : bit < 8 * front.length) :
    flipBit bit (front ++ back) = flipBit bit front ++ back := by
  induction front generalizing bit with
  | nil => simp at inside
  | cons b front ih =>
    by_cases first : bit < 8
    · simp [flipBit, first]
    · rw [List.length_cons] at inside
      simp [flipBit, first, ih (bit - 8) (by omega)]

theorem flipBit_append_right (bit : Nat) (front back : Bytes) (behind : 8 * front.length ≤ bit) :
    flipBit bit (front ++ back) = front ++ flipBit (bit - 8 * front.length) back := by
  induction front generalizing bit with
  | nil => simp
  | cons b front ih =>
    rw [List.length_cons] at behind
    have first : ¬ bit < 8 := by omega
    have rest : bit - 8 - 8 * front.length = bit - 8 * (front.length + 1) := by omega
    simp [flipBit, first, ih (bit - 8) (by omega), rest]

theorem drop_flipBit (bit n : Nat) (bs : Bytes) (before : bit < 8 * n) :
    (flipBit bit bs).drop n = bs.drop n := by
  induction bs generalizing bit n with
  | nil => rfl
  | cons b bs ih =>
    cases n with
    | zero => simp at before
    | succ n =>
      by_cases first : bit < 8
      · simp [flipBit, first]
      · simp [flipBit, first, ih (bit - 8) n (by omega)]

theorem take_flipBit (bit n : Nat) (bs : Bytes) (behind : 8 * n ≤ bit) :
    (flipBit bit bs).take n = bs.take n := by
  induction bs generalizing bit n with
  | nil => rfl
  | cons b bs ih =>
    cases n with
    | zero => simp
    | succ n =>
      have first : ¬ bit < 8 := by omega
      simp [flipBit, first, ih (bit - 8) n (by omega)]

theorem burst_flipBit (bit : Nat) (bs : Bytes) (inside : bit < 8 * bs.length) :
    Burst 1 bs (flipBit bit bs) := by
  induction bs generalizing bit with
  | nil => simp at inside
  | cons b bs ih =>
    by_cases first : bit < 8
    · have power : ∀ bit < 8, UInt8.ofNat (1 <<< bit) ≠ 0 := by decide
      have changed : b ≠ b ^^^ UInt8.ofNat (1 <<< bit) := by
        intro same
        exact power bit first ((UInt8.xor_right_inj b).mp (same.symm.trans UInt8.xor_zero.symm))
      exact ⟨[], [b], [b ^^^ UInt8.ofNat (1 <<< bit)], bs, rfl, by simp [flipBit, first], rfl,
        Nat.le_refl 1, fun same => changed (List.cons.inj same).1⟩
    · rw [List.length_cons] at inside
      obtain ⟨front, window, window', back, before, after, rest⟩ := ih (bit - 8) (by omega)
      exact ⟨b :: front, window, window', back, by simp [before], by simp [flipBit, first, after],
        rest⟩

end PartitionLog.Bytes
