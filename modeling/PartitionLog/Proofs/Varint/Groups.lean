import Mathlib.Algebra.BigOperators.Fin
import Mathlib.Data.Nat.Bitwise
import PartitionLog.Varint

/-!
# Groups of seven bits as a number

`groupSum` is what groups stand for, however many there are. Reading adds them up in a word, one
shift for each: the word is the sum cut to 64 bits, and nothing is cut from the first nine groups
(`Complete.decodeFrom`). Where no group is the last, reading ends with the bytes or after ten of them
(`decodeFrom_of_continued`), and one of these two is so for all bytes (`Complete.split`).
-/
namespace PartitionLog.Varint

/-! ## One group -/

theorem toNat_lowGroup (n : UInt64) : (lowGroup n).toNat = n.toNat % 128 := by
  have masked : (n &&& 0x7F).toNat = n.toNat % 128 :=
    (UInt64.toNat_and n 0x7F).trans (Nat.and_two_pow_sub_one_eq_mod n.toNat 7)
  rw [lowGroup, UInt64.toNat_toUInt8, masked]
  omega

theorem toNat_continued (n : UInt64) : (lowGroup n ||| 0x80).toNat = n.toNat % 128 + 128 := by
  have low : (lowGroup n).toNat < 2 ^ 7 := by
    rw [toNat_lowGroup]
    omega
  rw [UInt8.toNat_or, Nat.or_comm, ← toNat_lowGroup, Nat.add_comm]
  exact (Nat.two_pow_add_eq_or_of_lt low 1).symm

theorem toNat_and_low (b : UInt8) : (b &&& 0x7F).toNat = b.toNat % 128 :=
  (UInt8.toNat_and b 0x7F).trans (Nat.and_two_pow_sub_one_eq_mod b.toNat 7)

theorem and_high_eq_zero_iff (b : UInt8) : b &&& 0x80 = 0 ↔ b.toNat < 128 := by
  have small := b.toNat_lt
  have masked : (b &&& 0x80).toNat = b.toNat / 2 ^ 7 % 2 * 2 ^ 7 := by
    rw [← Nat.toNat_testBit, ← Nat.and_two_pow]
    exact UInt8.toNat_and b 0x80
  rw [← UInt8.toNat_inj, masked]
  change b.toNat / 2 ^ 7 % 2 * 2 ^ 7 = 0 ↔ b.toNat < 128
  omega

/-- Joining a group to the bits below it is adding it. -/
theorem or_shiftLeft_group {read : Nat} {low : UInt64} (room : read < maxLength)
    (below : low.toNat < 128 ^ read) (b : UInt8) :
    low ||| (b &&& 0x7F).toUInt64 <<< UInt64.ofNat (7 * read) =
      UInt64.ofNat (low.toNat + 128 ^ read * (b.toNat % 128)) := by
  have within : 7 * read < 64 := by
    unfold maxLength at room
    omega
  have shift : (UInt64.ofNat (7 * read)).toNat % 64 = 7 * read := by
    rw [UInt64.toNat_ofNat_of_lt' (Nat.lt_trans within (by decide)), Nat.mod_eq_of_lt within]
  have width : 2 ^ 64 = 2 ^ (7 * read) * 2 ^ (64 - 7 * read) := by
    rw [← Nat.pow_add, Nat.add_sub_cancel' (Nat.le_of_lt within)]
  have shifted : ((b &&& 0x7F).toUInt64 <<< UInt64.ofNat (7 * read)).toNat =
      2 ^ (7 * read) * (b.toNat % 128 % 2 ^ (64 - 7 * read)) := by
    rw [UInt64.toNat_shiftLeft, shift, UInt8.toNat_toUInt64, toNat_and_low, Nat.shiftLeft_eq,
      Nat.mul_comm, width, Nat.mul_mod_mul_left]
  have base : 128 ^ read = 2 ^ (7 * read) := (Nat.pow_mul 2 7 read).symm
  rw [base] at below ⊢
  apply UInt64.toNat_inj.mp
  rw [UInt64.toNat_or, shifted, Nat.or_comm, ← Nat.two_pow_add_eq_or_of_lt below,
    UInt64.toNat_ofNat', width, Nat.mod_mul, Nat.add_mul_mod_self_left, Nat.mod_eq_of_lt below,
    Nat.add_mul_div_left _ _ (Nat.two_pow_pos _), Nat.div_eq_of_lt below, Nat.zero_add,
    Nat.add_comm]

/-! ## Sums -/

/-- The number in groups, exactly. -/
def groupSum (bs : Bytes) : Nat := ∑ i : Fin bs.length, (bs[i] &&& 0x7F).toNat * 128 ^ (i : Nat)

@[simp] theorem groupSum_nil : groupSum [] = 0 := rfl

@[simp] theorem groupSum_cons (b : UInt8) (bs : Bytes) :
    groupSum (b :: bs) = b.toNat % 128 + 128 * groupSum bs := by
  have shifted (i : Fin bs.length) : (bs[i] &&& 0x7F).toNat * 128 ^ (i.val + 1) =
      128 * ((bs[i] &&& 0x7F).toNat * 128 ^ i.val) := by
    rw [Nat.pow_succ]
    ac_rfl
  have first : groupSum (b :: bs) = (b &&& 0x7F).toNat * 128 ^ 0 +
      ∑ i : Fin bs.length, (bs[i] &&& 0x7F).toNat * 128 ^ (i.val + 1) :=
    Fin.sum_univ_succ _
  rw [first, toNat_and_low, Nat.pow_zero, Nat.mul_one, Finset.sum_congr rfl fun i _ => shifted i,
    ← Finset.mul_sum]
  rfl

/-! ## Up to a last group -/

/-- Only the last group has a clear high bit. -/
inductive Complete : Bytes → Prop
  | last {b : UInt8} (ends : b.toNat < 128) : Complete [b]
  | more {b : UInt8} {bs : Bytes} (goesOn : 128 ≤ b.toNat) (later : Complete bs) : Complete (b :: bs)

namespace Complete

theorem split (input : Bytes) :
    (∃ gs rest, Complete gs ∧ input = gs ++ rest) ∨ ∀ b ∈ input, 128 ≤ b.toNat := by
  induction input with
  | nil => exact .inr nofun
  | cons b bs ih =>
    by_cases ends : b.toNat < 128
    · exact .inl ⟨[b], bs, .last ends, rfl⟩
    · have goesOn := Nat.le_of_not_lt ends
      rcases ih with ⟨gs, rest, later, rfl⟩ | continued
      · exact .inl ⟨b :: gs, rest, .more goesOn later, rfl⟩
      · exact .inr (List.forall_mem_cons.mpr ⟨goesOn, continued⟩)

theorem length_pos {gs : Bytes} (whole : Complete gs) : 0 < gs.length := by
  cases whole <;> exact Nat.succ_pos _

theorem append {front gs : Bytes} (continued : ∀ b ∈ front, 128 ≤ b.toNat) (later : Complete gs) :
    Complete (front ++ gs) := by
  induction front with
  | nil => exact later
  | cons b front ih =>
    obtain ⟨goesOn, continued⟩ := List.forall_mem_cons.mp continued
    exact .more goesOn (ih continued)

theorem exists_last {gs : Bytes} (whole : Complete gs) : ∃ b ∈ gs, b.toNat < 128 := by
  induction whole with
  | last ends => exact ⟨_, List.mem_singleton_self _, ends⟩
  | more goesOn later ih =>
    obtain ⟨b, member, ends⟩ := ih
    exact ⟨b, List.mem_cons_of_mem _ member, ends⟩

/-- In front of the last group every byte goes on. -/
theorem continued {gs front : Bytes} (whole : Complete gs) (isFront : front <+: gs)
    (short : front ≠ gs) : (∀ b ∈ front, 128 ≤ b.toNat) ∧ front.length < gs.length := by
  induction whole generalizing front with
  | last ends =>
    cases front with
    | nil => exact ⟨nofun, Nat.one_pos⟩
    | cons b front =>
      obtain ⟨rfl, nothing⟩ := List.cons_prefix_cons.mp isFront
      obtain rfl := List.prefix_nil.mp nothing
      exact absurd rfl short
  | @more b bs goesOn later ih =>
    cases front with
    | nil => exact ⟨nofun, Nat.succ_pos _⟩
    | cons b' front =>
      obtain ⟨rfl, isLater⟩ := List.cons_prefix_cons.mp isFront
      obtain ⟨continued, less⟩ := ih isLater fun same => short (congrArg (List.cons b') same)
      exact ⟨List.forall_mem_cons.mpr ⟨goesOn, continued⟩, Nat.succ_lt_succ less⟩

end Complete

/-! ## Reading -/

theorem ofNat_toNat_add (n more : Nat) :
    UInt64.ofNat ((UInt64.ofNat n).toNat + more) = UInt64.ofNat (n + more) := by
  rw [UInt64.ofNat_add, UInt64.ofNat_toNat, UInt64.ofNat_add]

theorem decodeFrom_of_full {read : Nat} (full : maxLength ≤ read) (low : UInt64) (bs : Bytes) :
    decodeFrom read low bs = .error .varintOverflow := by
  cases bs <;> rw [decodeFrom, if_pos full]

theorem decodeFrom_cons {read : Nat} {low : UInt64} (room : read < maxLength)
    (below : low.toNat < 128 ^ read) (b : UInt8) (bs : Bytes) :
    decodeFrom read low (b :: bs) =
      if b.toNat < 128 then .ok (.ofNat (low.toNat + 128 ^ read * (b.toNat % 128)), read + 1)
      else decodeFrom (read + 1) (.ofNat (low.toNat + 128 ^ read * (b.toNat % 128))) bs := by
  simp only [decodeFrom, if_neg (Nat.not_le.mpr room), or_shiftLeft_group room below,
    and_high_eq_zero_iff]

theorem below_succ {read : Nat} {low : UInt64} (below : low.toNat < 128 ^ read) (b : UInt8) :
    (UInt64.ofNat (low.toNat + 128 ^ read * (b.toNat % 128))).toNat < 128 ^ (read + 1) := by
  have group : b.toNat % 128 < 128 := Nat.mod_lt _ (by decide)
  rw [UInt64.toNat_ofNat']
  refine Nat.lt_of_le_of_lt (Nat.mod_le _ _) ?_
  calc low.toNat + 128 ^ read * (b.toNat % 128)
      < 128 ^ read + 128 ^ read * (b.toNat % 128) := Nat.add_lt_add_right below _
    _ = 128 ^ read * (b.toNat % 128 + 1) := by rw [Nat.mul_add, Nat.mul_one, Nat.add_comm]
    _ ≤ 128 ^ read * 128 := Nat.mul_le_mul_left _ group
    _ = 128 ^ (read + 1) := (Nat.pow_succ ..).symm

theorem Complete.decodeFrom {gs : Bytes} (whole : Complete gs) (rest : Bytes) {read : Nat}
    {low : UInt64} (below : low.toNat < 128 ^ read) :
    decodeFrom read low (gs ++ rest) =
      if read + gs.length ≤ maxLength then
        .ok (.ofNat (low.toNat + 128 ^ read * groupSum gs), read + gs.length)
      else .error .varintOverflow := by
  induction whole generalizing read low with
  | @last b ends =>
    by_cases room : read + 1 ≤ maxLength
    · have single : groupSum [b] = b.toNat % 128 := groupSum_cons b []
      rw [List.singleton_append, decodeFrom_cons room below, if_pos ends, List.length_singleton,
        if_pos room, single]
    · rw [decodeFrom_of_full (Nat.le_of_not_lt room), List.length_singleton, if_neg room]
  | @more b bs goesOn later ih =>
    by_cases room : read < maxLength
    · have place : 128 ^ read * groupSum (b :: bs) =
          128 ^ read * (b.toNat % 128) + 128 ^ (read + 1) * groupSum bs := by
        rw [groupSum_cons, Nat.mul_add, Nat.pow_succ, Nat.mul_assoc]
      rw [List.cons_append, decodeFrom_cons room below, if_neg (Nat.not_lt.mpr goesOn),
        ih (below_succ below b), ofNat_toNat_add, place, List.length_cons, Nat.add_comm bs.length,
        ← Nat.add_assoc, ← Nat.add_assoc]
    · rw [decodeFrom_of_full (Nat.le_of_not_lt room), List.length_cons, if_neg (by omega)]

/-- The bytes end before the number does, or it has too many groups. -/
theorem decodeFrom_of_continued {bs : Bytes} (continued : ∀ b ∈ bs, 128 ≤ b.toNat) {read : Nat}
    {low : UInt64} (below : low.toNat < 128 ^ read) :
    decodeFrom read low bs =
      if maxLength ≤ read + bs.length then .error .varintOverflow
      else .error (.truncated (read + bs.length + 1) (read + bs.length)) := by
  induction bs generalizing read low with
  | nil => rfl
  | cons b bs ih =>
    obtain ⟨goesOn, later⟩ := List.forall_mem_cons.mp continued
    rw [List.length_cons, Nat.add_comm bs.length, ← Nat.add_assoc]
    by_cases room : read < maxLength
    · rw [decodeFrom_cons room below, if_neg (Nat.not_lt.mpr goesOn), ih later (below_succ below b)]
    · rw [decodeFrom_of_full (Nat.le_of_not_lt room), if_pos (by omega)]

end PartitionLog.Varint
