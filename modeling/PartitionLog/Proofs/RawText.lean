import PartitionLog.RawText

/-!
# Text among bytes

A raw text has a text exactly if it is what that text is written as (`text?_eq_some_iff`), and then
it is shown as that text (`shown_ofString`). A slash among the bytes is a slash in the text
(`slash_mem_bytes_ofString`).
-/
namespace PartitionLog.RawText

variable {raw : RawText} {s t : String}

theorem text?_eq_some_iff : raw.text? = some s ↔ raw = ofString s := by
  constructor
  · intro decoded
    unfold text? String.fromUTF8? at decoded
    split at decoded
    · rw [← Option.some.inj decoded]
      rfl
    · cases decoded
  · rintro rfl
    exact text?_ofString s

theorem ofString_inj : ofString s = ofString t ↔ s = t := by
  rw [← text?_eq_some_iff, text?_ofString, Option.some_inj]

theorem bytes_ofString (s : String) :
    (ofString s).bytes = s.toList.flatMap String.utf8EncodeChar := by
  have encoded : s.toByteArray = (s.toList.flatMap String.utf8EncodeChar).toByteArray :=
    String.utf8Encode_toList.symm
  rw [ofString, String.toUTF8_eq_toByteArray, encoded, List.toList_data_toByteArray]

theorem bytes_ofString_append (s t : String) :
    (ofString (s ++ t)).bytes = (ofString s).bytes ++ (ofString t).bytes := by
  rw [bytes_ofString, bytes_ofString, bytes_ofString, String.toList_append, List.flatMap_append]

/-! ## Slashes -/

/-- The bytes of a character that takes several are all high ones. -/
theorem le_of_mem_utf8EncodeChar {c : Char} (several : 127 < c.toNat) {b : UInt8}
    (member : b ∈ String.utf8EncodeChar c) : 128 ≤ b.toNat := by
  have high {n : Nat} (large : 128 ≤ n) (byte : n < 256) : 128 ≤ (UInt8.ofNat n).toNat := by
    rwa [UInt8.toNat_ofNat_of_lt' byte]
  have more : ¬ c.val.toNat ≤ 127 := Nat.not_le.mpr several
  simp only [String.utf8EncodeChar, if_neg more] at member
  split at member
  · simp only [List.mem_cons, List.not_mem_nil, or_false] at member
    rcases member with rfl | rfl <;> exact high (by omega) (by omega)
  · split at member
    · simp only [List.mem_cons, List.not_mem_nil, or_false] at member
      rcases member with rfl | rfl | rfl <;> exact high (by omega) (by omega)
    · simp only [List.mem_cons, List.not_mem_nil, or_false] at member
      rcases member with rfl | rfl | rfl | rfl <;> exact high (by omega) (by omega)

theorem slash_mem_utf8EncodeChar {c : Char} : slash ∈ String.utf8EncodeChar c ↔ c = '/' := by
  constructor
  · intro member
    by_cases ascii : c.val.toNat ≤ 127
    · simp only [String.utf8EncodeChar, if_pos ascii, List.mem_singleton] at member
      have value := congrArg UInt8.toNat member
      rw [UInt8.toNat_ofNat_of_lt' (Nat.lt_of_le_of_lt ascii (by decide))] at value
      exact Char.toNat_inj.mp value.symm
    · exact absurd (le_of_mem_utf8EncodeChar (Nat.not_le.mp ascii) member) (by decide)
  · rintro rfl
    decide

theorem slash_mem_bytes_ofString : slash ∈ (ofString s).bytes ↔ '/' ∈ s.toList := by
  simp only [bytes_ofString, List.mem_flatMap, slash_mem_utf8EncodeChar, exists_eq_right]

/-! ## Showing -/

theorem charsWithin_utf8Encode {fuel : Nat} {cs : List Char} (enough : cs.length ≤ fuel) :
    charsWithin fuel (cs.flatMap String.utf8EncodeChar) = cs := by
  induction cs generalizing fuel with
  | nil => cases fuel <;> rfl
  | cons c cs ih =>
    obtain ⟨fuel, rfl⟩ := Nat.exists_eq_add_one_of_ne_zero (by simp at enough; omega : fuel ≠ 0)
    have first : firstChar? ((c :: cs).flatMap String.utf8EncodeChar) = some c := by
      rw [firstChar?, ← List.data_toByteArray]
      exact List.utf8DecodeChar?_utf8Encode_cons
    have rest : ((c :: cs).flatMap String.utf8EncodeChar).drop c.utf8Size =
        cs.flatMap String.utf8EncodeChar := by
      rw [List.flatMap_cons, ← String.length_utf8EncodeChar, List.drop_left]
    have some : (c :: cs).flatMap String.utf8EncodeChar ≠ [] := by
      rw [List.flatMap_cons]
      exact List.append_ne_nil_of_left_ne_nil String.utf8EncodeChar_ne_nil _
    rw [charsWithin.eq_3 _ _ some, first]
    simp only [rest, ih (Nat.le_of_succ_le_succ enough)]

theorem length_le_length_utf8Encode (cs : List Char) :
    cs.length ≤ (cs.flatMap String.utf8EncodeChar).length := by
  induction cs with
  | nil => exact Nat.le_refl _
  | cons c cs ih =>
    have some : 0 < (String.utf8EncodeChar c).length :=
      List.length_pos_iff.mpr String.utf8EncodeChar_ne_nil
    rw [List.length_cons, List.flatMap_cons, List.length_append]
    omega

theorem shown_ofString (s : String) : (ofString s).shown = s := by
  rw [shown, bytes_ofString, charsWithin_utf8Encode (length_le_length_utf8Encode _),
    String.ofList_toList]

end PartitionLog.RawText
