import PartitionLog.Decimal

/-!
# Which texts are numbers

A signed number is a run of digits, perhaps behind a sign, and a field of fixed width takes it if
the number is one of its own: `int32_eq_some_iff`, `int64_eq_some_iff`. A number as it is printed is
one such text (`Signed.repr`), and the only run of digits for a number that has no zero to leave out
(`not_padded_toDigits`, `Digits.eq_repr`).
-/
namespace PartitionLog.Decimal

variable {text : List Char}

structure Digits (text : List Char) (n : Nat) : Prop where
  nonempty : text ≠ []
  digits : ∀ c ∈ text, c.isDigit
  value : Nat.ofDigitChars 10 text 0 = n

inductive Signed : List Char → Int → Prop
  | plain {text : List Char} {n : Nat} : Digits text n → Signed text n
  | plus {text : List Char} {n : Nat} : Digits text n → Signed ('+' :: text) n
  | minus {text : List Char} {n : Nat} : Digits text n → Signed ('-' :: text) (-n)

theorem digits_eq_some_iff {n : Nat} : digits text = some n ↔ Digits text n := by
  unfold digits
  split
  · rename_i run
    rw [Option.some_inj]
    exact ⟨fun value => ⟨run.1, List.all_eq_true.mp run.2, value⟩, Digits.value⟩
  · rename_i other
    refine ⟨nofun, fun number => absurd ?_ other⟩
    exact ⟨number.nonempty, List.all_eq_true.mpr number.digits⟩

theorem signed_minus : signed ('-' :: text) = (digits text).map fun n => -Int.ofNat n := by
  simp only [signed]
  cases digits text <;> rfl

theorem signed_plus : signed ('+' :: text) = (digits text).map Int.ofNat := rfl

theorem signed_plain (minus : text.head? ≠ some '-') (plus : text.head? ≠ some '+') :
    signed text = (digits text).map Int.ofNat := by
  unfold signed
  split <;> simp_all

theorem Digits.head?_ne {n : Nat} {c : Char} (number : Digits text n) (other : c.isDigit = false) :
    text.head? ≠ some c := by
  intro head
  exact absurd (number.digits c (List.mem_of_mem_head? head)) (by simp [other])

theorem Signed.of_signed {n : Int} (read : signed text = some n) : Signed text n := by
  by_cases minus : text.head? = some '-'
  · obtain ⟨rest, rfl⟩ := List.head?_eq_some_iff.mp minus
    rw [signed_minus] at read
    obtain ⟨value, run, rfl⟩ := Option.map_eq_some_iff.mp read
    exact .minus (digits_eq_some_iff.mp run)
  by_cases plus : text.head? = some '+'
  · obtain ⟨rest, rfl⟩ := List.head?_eq_some_iff.mp plus
    rw [signed_plus] at read
    obtain ⟨value, run, rfl⟩ := Option.map_eq_some_iff.mp read
    exact .plus (digits_eq_some_iff.mp run)
  rw [signed_plain minus plus] at read
  obtain ⟨value, run, rfl⟩ := Option.map_eq_some_iff.mp read
  exact .plain (digits_eq_some_iff.mp run)

theorem signed_eq_some_iff {n : Int} : signed text = some n ↔ Signed text n := by
  refine ⟨Signed.of_signed, fun number => ?_⟩
  cases number with
  | plain number =>
    rw [signed_plain (number.head?_ne (by decide)) (number.head?_ne (by decide)),
      digits_eq_some_iff.mpr number]
    rfl
  | plus number =>
    rw [signed_plus, digits_eq_some_iff.mpr number]
    rfl
  | minus number =>
    rw [signed_minus, digits_eq_some_iff.mpr number]
    rfl

theorem signedWithin_eq_some_iff {low high n : Int} :
    signedWithin low high text = some n ↔ Signed text n ∧ low ≤ n ∧ n ≤ high := by
  rw [signedWithin, Option.filter_eq_some_iff, signed_eq_some_iff, decide_eq_true_iff]

theorem map_signedWithin_eq_some_iff {α : Type} {low high : Int} {ofInt : Int → α} {toInt : α → Int}
    (ofInt_toInt : ∀ x, ofInt (toInt x) = x)
    (toInt_ofInt : ∀ n, low ≤ n → n ≤ high → toInt (ofInt n) = n)
    (within : ∀ x, low ≤ toInt x ∧ toInt x ≤ high) {x : α} :
    (signedWithin low high text).map ofInt = some x ↔ Signed text (toInt x) := by
  rw [Option.map_eq_some_iff]
  constructor
  · rintro ⟨value, read, rfl⟩
    obtain ⟨number, least, most⟩ := signedWithin_eq_some_iff.mp read
    rwa [toInt_ofInt value least most]
  · intro number
    exact ⟨toInt x, signedWithin_eq_some_iff.mpr ⟨number, within x⟩, ofInt_toInt x⟩

theorem int32_eq_some_iff {n : Int32} : int32 text = some n ↔ Signed text n.toInt := by
  refine map_signedWithin_eq_some_iff Int32.ofInt_toInt (fun value least most => ?_)
    fun n => ⟨n.minValue_le_toInt, n.toInt_le⟩
  rw [Int32.toInt_minValue] at least
  rw [Int32.toInt_maxValue] at most
  exact Int32.toInt_ofInt_of_le least (by omega)

theorem int32_eq_none_iff :
    int32 text = none ↔
      ∀ n, Signed text n → n < Int32.minValue.toInt ∨ Int32.maxValue.toInt < n := by
  constructor
  · intro refused n number
    refine Decidable.byContradiction fun within => ?_
    have inside : Int32.minValue.toInt ≤ n ∧ n ≤ Int32.maxValue.toInt := by omega
    rw [int32, signedWithin_eq_some_iff.mpr ⟨number, inside⟩] at refused
    cases refused
  · intro outside
    cases read : int32 text with
    | none => rfl
    | some n =>
      have least := n.minValue_le_toInt
      have most := n.toInt_le
      have beyond := outside n.toInt (int32_eq_some_iff.mp read)
      omega

theorem int64_eq_some_iff {n : Int64} : int64 text = some n ↔ Signed text n.toInt := by
  refine map_signedWithin_eq_some_iff Int64.ofInt_toInt (fun value least most => ?_)
    fun n => ⟨n.minValue_le_toInt, n.toInt_le⟩
  rw [Int64.toInt_minValue] at least
  rw [Int64.toInt_maxValue] at most
  exact Int64.toInt_ofInt_of_le least (by omega)

theorem digitsBelow_eq_some_iff {bound n : Nat} :
    digitsBelow bound text = some n ↔ Digits text n ∧ n < bound := by
  rw [digitsBelow, Option.filter_eq_some_iff, digits_eq_some_iff, decide_eq_true_iff]

/-! ## Numbers as they are printed -/

theorem Digits.toDigits (n : Nat) : Digits (Nat.toDigits 10 n) n :=
  digits_eq_some_iff.mp (digits_toDigits n)

theorem Digits.repr (n : Nat) : Digits n.repr.toList n := by
  rw [Nat.repr_eq_ofList_toDigits, String.toList_ofList]
  exact .toDigits n

theorem Digits.notMem {n : Nat} {c : Char} (number : Digits text n) (other : c.isDigit = false) :
    c ∉ text := by
  intro member
  simp [number.digits c member] at other

theorem Signed.repr (n : Int) : Signed n.repr.toList n := by
  rw [Int.repr_eq_if]
  split
  · rename_i positive
    have number : Signed n.toNat.repr.toList n.toNat := .plain (.repr n.toNat)
    rwa [Int.toNat_of_nonneg positive] at number
  · have number : Signed ('-' :: (-n).toNat.repr.toList) (-(-n).toNat) :=
      .minus (.repr (-n).toNat)
    rw [Int.toNat_of_nonneg (by omega), Int.neg_neg] at number
    simpa using number

theorem Signed.notMem {n : Int} {c : Char} (number : Signed text n) (other : c.isDigit = false)
    (plus : c ≠ '+') (minus : c ≠ '-') : c ∉ text := by
  cases number with
  | plain number => exact number.notMem other
  | plus number => exact List.not_mem_cons_of_ne_of_not_mem plus (number.notMem other)
  | minus number => exact List.not_mem_cons_of_ne_of_not_mem minus (number.notMem other)

/-! ## Zeros in front -/

/-- A number that begins with a zero, and goes on. -/
def Padded (text : List Char) : Prop := ∃ digit rest, text = '0' :: digit :: rest

theorem digitChar_ne_zero {n : Nat} (positive : 0 < n) (small : n < 10) : n.digitChar ≠ '0' := by
  intro same
  have value := Nat.toNat_digitChar_of_lt_ten small
  rw [same] at value
  have zero : '0'.toNat = 48 := rfl
  omega

theorem head?_toDigits_ne {n : Nat} (positive : 0 < n) :
    (Nat.toDigits 10 n).head? ≠ some '0' := by
  induction n using Nat.strongRecOn with
  | ind n ih =>
    by_cases small : n < 10
    · rw [Nat.toDigits_of_lt_base small]
      simpa using digitChar_ne_zero positive small
    · have front := ih (n / 10) (by omega) (by omega)
      rw [Nat.toDigits_of_base_le (by decide) (by omega), List.head?_append]
      cases digits : Nat.toDigits 10 (n / 10) with
      | nil => exact absurd digits Nat.toDigits_ne_nil
      | cons first rest => simpa [digits] using front

theorem not_padded_toDigits (n : Nat) : ¬ Padded (Nat.toDigits 10 n) := by
  rintro ⟨digit, rest, split⟩
  cases n with
  | zero => simp at split
  | succ n => exact head?_toDigits_ne n.succ_pos (by rw [split]; rfl)

theorem digitChar_toNat_sub {c : Char} (digit : c.isDigit) :
    c.toNat - '0'.toNat < 10 ∧ (c.toNat - '0'.toNat).digitChar = c := by
  have zero : '0'.toNat = 48 := rfl
  obtain ⟨least, most⟩ : 48 ≤ c.toNat ∧ c.toNat ≤ 57 := by
    simpa [Char.isDigit, Char.le_def, UInt32.le_iff_toNat_le] using digit
  refine ⟨by omega, Char.toNat_inj.mp ?_⟩
  rw [Nat.toNat_digitChar_of_lt_ten (by omega)]
  omega

/-- A number that has begun is printed as it goes on. -/
theorem toDigits_ofDigitChars {front : Nat} (positive : 0 < front)
    (digits : ∀ c ∈ text, c.isDigit) :
    Nat.toDigits 10 (Nat.ofDigitChars 10 text front) = Nat.toDigits 10 front ++ text := by
  induction text generalizing front with
  | nil => simp
  | cons c text ih =>
    obtain ⟨digit, rest⟩ := List.forall_mem_cons.mp digits
    obtain ⟨small, char⟩ := digitChar_toNat_sub digit
    rw [Nat.ofDigitChars_cons, ih (by omega) rest,
      ← Nat.toDigits_append_toDigits (by decide) positive small, Nat.toDigits_of_lt_base small,
      char, List.append_assoc, List.singleton_append]

theorem Digits.eq_toDigits {n : Nat} (number : Digits text n) (bare : ¬ Padded text) :
    text = Nat.toDigits 10 n := by
  obtain ⟨c, rest, rfl⟩ := List.exists_cons_of_ne_nil number.nonempty
  obtain ⟨digit, digits⟩ := List.forall_mem_cons.mp number.digits
  obtain ⟨small, char⟩ := digitChar_toNat_sub digit
  have value := number.value
  rw [Nat.ofDigitChars_cons, Nat.mul_zero, Nat.zero_add] at value
  by_cases zero : c = '0'
  · subst zero
    cases rest with
    | nil => rw [← value]; rfl
    | cons second rest => exact absurd ⟨second, rest, rfl⟩ bare
  · have positive : 0 < c.toNat - '0'.toNat := by
      refine Nat.pos_of_ne_zero fun none => zero ?_
      rw [← char, none]
      rfl
    rw [← value, toDigits_ofDigitChars positive digits, Nat.toDigits_of_lt_base small, char]
    rfl

theorem Digits.eq_repr {text : String} {n : Nat} (number : Digits text.toList n)
    (bare : ¬ Padded text.toList) : text = n.repr := by
  rw [Nat.repr_eq_ofList_toDigits, ← number.eq_toDigits bare, String.ofList_toList]

/-- A number anywhere in a text that begins with a zero, and goes on. -/
def PaddedWithin (text : List Char) : Prop :=
  ∃ front digit back, text = front ++ '0' :: digit :: back ∧ digit.isDigit ∧
    ∀ c, front.getLast? = some c → c.isDigit = false

/-- A number ends where something else follows. -/
theorem paddedWithin_append_cons {c : Char} {rest : List Char} (digits : ∀ c ∈ text, c.isDigit)
    (other : c.isDigit = false) :
    PaddedWithin (text ++ c :: rest) ↔ Padded text ∨ PaddedWithin rest := by
  have zero : c ≠ '0' := by
    rintro rfl
    cases other
  constructor
  · rintro ⟨front, digit, back, split, second, first⟩
    obtain ⟨inner, rfl, behind⟩ | ⟨inner, rfl, within⟩ := List.append_eq_append_iff.mp split
    · cases inner with
      | nil => exact absurd (List.cons.inj behind).1 zero
      | cons c' inner =>
        refine .inr ⟨inner, digit, back, (List.cons.inj behind).2, second, fun last ends => ?_⟩
        exact first last (by simp [List.getLast?_append, List.getLast?_cons, ends])
    · match inner with
      | [] => exact absurd (List.cons.inj within).1.symm zero
      | [c'] =>
        have same := (List.cons.inj (List.cons.inj within).2).1
        rw [same, other] at second
        cases second
      | c' :: digit' :: inner =>
        obtain ⟨rfl, within⟩ := List.cons.inj within
        have none : front = [] := by
          cases ends : front.getLast? with
          | none => exact List.getLast?_eq_none_iff.mp ends
          | some last =>
            have among := List.mem_append_left ('0' :: digit' :: inner) (List.mem_of_getLast? ends)
            exact absurd (digits last among) (by simp [first last ends])
        exact .inl ⟨digit', inner, by rw [none, List.nil_append]⟩
  · rintro (⟨digit, more, rfl⟩ | ⟨front, digit, back, rfl, second, first⟩)
    · exact ⟨[], digit, more ++ c :: rest, rfl, digits digit (by simp), nofun⟩
    · refine ⟨text ++ c :: front, digit, back, by simp, second, fun last ends => ?_⟩
      rw [List.getLast?_append, List.getLast?_cons, Option.some_or, Option.some_inj] at ends
      cases behind : front.getLast? with
      | none => rwa [← ends, behind, Option.getD_none]
      | some last' => rw [← ends, behind, Option.getD_some, first last' behind]

theorem paddedWithin_cons {c : Char} (other : c.isDigit = false) :
    PaddedWithin (c :: text) ↔ PaddedWithin text := by
  have none : PaddedWithin ([] ++ c :: text) ↔ Padded [] ∨ PaddedWithin text :=
    paddedWithin_append_cons nofun other
  refine none.trans (or_iff_right ?_)
  rintro ⟨digit, rest, empty⟩
  cases empty

end PartitionLog.Decimal
