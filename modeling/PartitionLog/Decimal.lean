/-!
# Decimal numbers in text

Numbers in names are runs of ASCII digits, in some places behind a sign. A number outside the
range of its field is refused.
-/
namespace PartitionLog.Decimal

def digits (text : List Char) : Option Nat :=
  if text ≠ [] ∧ text.all Char.isDigit then some (Nat.ofDigitChars 10 text 0) else none

def digitsBelow (bound : Nat) (text : List Char) : Option Nat :=
  (digits text).filter (· < bound)

def signed : List Char → Option Int
  | '-' :: text => (digits text).map fun n => -(n : Int)
  | '+' :: text => (digits text).map Int.ofNat
  | text => (digits text).map Int.ofNat

def signedWithin (low high : Int) (text : List Char) : Option Int :=
  (signed text).filter fun n => low ≤ n ∧ n ≤ high

def int32 (text : List Char) : Option Int32 :=
  (signedWithin Int32.minValue.toInt Int32.maxValue.toInt text).map Int32.ofInt

def int64 (text : List Char) : Option Int64 :=
  (signedWithin Int64.minValue.toInt Int64.maxValue.toInt text).map Int64.ofInt

def word64 : List Char → Option Nat
  | '+' :: text => digitsBelow UInt64.size text
  | text => digitsBelow UInt64.size text

theorem digits_toDigits (n : Nat) : digits (Nat.toDigits 10 n) = some n := by
  have nonempty : Nat.toDigits 10 n ≠ [] := Nat.toDigits_ne_nil
  have all : (Nat.toDigits 10 n).all Char.isDigit = true := by
    rw [List.all_eq_true]
    exact fun c h => Nat.isDigit_of_mem_toDigits (by decide) (by decide) h
  simp [digits, nonempty, all, Nat.ofDigitChars_ten_toDigits]

end PartitionLog.Decimal
