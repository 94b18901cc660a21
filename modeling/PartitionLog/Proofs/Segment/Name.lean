import PartitionLog.Proofs.Decimal
import PartitionLog.Segment.Name

/-!
# Which texts name a segment

A text names a segment if it holds three numbers in their places, each of them within its field
(`Spells`), and no other text does. Zeros in front of a number do not count, so a name has several
spellings. The one without such zeros is the one that is printed: `spelling_exact`.
-/
namespace PartitionLog.SegmentName

variable {text : String} {name : SegmentName}

/-- The texts for a name. Its fields bound the numbers. -/
def Spells (text : String) (name : SegmentName) : Prop :=
  ∃ offset term version : String, text = offset ++ "-" ++ term ++ "-v" ++ version ++ ".log" ∧
    Decimal.Digits offset.toList name.baseOffset.toNat ∧
    Decimal.Digits term.toList name.term.toNat ∧
    Decimal.Digits version.toList name.version.toNat

/-! ## Reading -/

theorem stem_eq_some_iff {text front : List Char} :
    stem text = some front ↔ text = front ++ ['.', 'l', 'o', 'g'] := by
  constructor
  · intro found
    unfold stem at found
    split at found
    · rename_i back reversed
      obtain rfl := Option.some.inj found
      rw [← List.reverse_reverse text, reversed]
      simp
    · cases found
  · rintro rfl
    simp [stem]

theorem ofFields_eq_some_iff {fields : List (List Char)} :
    ofFields fields = some name ↔ ∃ offset term version, fields = [offset, term, 'v' :: version] ∧
      Decimal.Digits offset name.baseOffset.toNat ∧ Decimal.Digits term name.term.toNat ∧
      Decimal.Digits version name.version.toNat := by
  constructor
  · intro read
    unfold ofFields at read
    split at read
    · rename_i offset term version
      obtain ⟨m, first, read⟩ := Option.bind_eq_some_iff.mp read
      obtain ⟨n, second, read⟩ := Option.bind_eq_some_iff.mp read
      obtain ⟨k, third, read⟩ := Option.bind_eq_some_iff.mp read
      obtain rfl := Option.some.inj read
      obtain ⟨first, m_lt⟩ := Decimal.digitsBelow_eq_some_iff.mp first
      obtain ⟨second, n_lt⟩ := Decimal.digitsBelow_eq_some_iff.mp second
      obtain ⟨third, k_lt⟩ := Decimal.digitsBelow_eq_some_iff.mp third
      refine ⟨offset, term, version, rfl, ?_, ?_, ?_⟩
      · rwa [UInt64.toNat_ofNat_of_lt' m_lt]
      · rwa [UInt64.toNat_ofNat_of_lt' n_lt]
      · rwa [UInt32.toNat_ofNat_of_lt' k_lt]
    · cases read
  · rintro ⟨offset, term, version, rfl, first, second, third⟩
    have first := Decimal.digitsBelow_eq_some_iff.mpr ⟨first, name.baseOffset.toNat_lt_size⟩
    have second := Decimal.digitsBelow_eq_some_iff.mpr ⟨second, name.term.toNat_lt_size⟩
    have third := Decimal.digitsBelow_eq_some_iff.mpr ⟨third, name.version.toNat_lt_size⟩
    simp [ofFields, first, second, third]

/-- No dash can stand in a number, so the fields are what stands between the dashes. -/
theorem splitOn_eq_iff {front offset term version : List Char} {m n : Nat}
    (first : Decimal.Digits offset m) (second : Decimal.Digits term n) (third : '-' ∉ version) :
    front.splitOn '-' = [offset, term, version] ↔
      front = offset ++ '-' :: (term ++ '-' :: version) := by
  constructor
  · intro split
    have joined : ['-'].intercalate (front.splitOn '-') = front := List.intercalate_splitOn '-'
    rw [← joined, split]
    simp [List.intercalate, List.intersperse]
  · rintro rfl
    rw [List.splitOn_append_cons_self_of_not_mem (first.notMem rfl),
      List.splitOn_append_cons_self_of_not_mem (second.notMem rfl),
      List.splitOn_eq_singleton third]

theorem ofString_eq_some_iff : ofString text = some name ↔ Spells text name := by
  rw [ofString, Option.bind_eq_bind, Option.bind_eq_some_iff]
  constructor
  · rintro ⟨front, stem, read⟩
    obtain ⟨offset, term, version, split, first, second, third⟩ := ofFields_eq_some_iff.mp read
    have dash : '-' ∉ 'v' :: version := by simpa using third.notMem rfl
    have text_eq := stem_eq_some_iff.mp stem
    rw [(splitOn_eq_iff first second dash).mp split] at text_eq
    refine ⟨String.ofList offset, String.ofList term, String.ofList version, ?_, ?_⟩
    · rw [← String.toList_inj, text_eq]
      simp
    · simp only [String.toList_ofList]
      exact ⟨first, second, third⟩
  · rintro ⟨offset, term, version, rfl, first, second, third⟩
    have dash : '-' ∉ 'v' :: version.toList := by simpa using third.notMem rfl
    refine ⟨_, stem_eq_some_iff.mpr ?_, ofFields_eq_some_iff.mpr
      ⟨offset.toList, term.toList, version.toList, (splitOn_eq_iff first second dash).mpr rfl,
        first, second, third⟩⟩
    simp

/-! ## Printing -/

theorem spells_toString (name : SegmentName) : Spells name.toString name :=
  ⟨_, _, _, rfl, .repr _, .repr _, .repr _⟩

theorem paddedWithin_iff {offset term version : String} {m n k : Nat}
    (first : Decimal.Digits offset.toList m) (second : Decimal.Digits term.toList n)
    (third : Decimal.Digits version.toList k) :
    Decimal.PaddedWithin (offset ++ "-" ++ term ++ "-v" ++ version ++ ".log").toList ↔
      Decimal.Padded offset.toList ∨ Decimal.Padded term.toList ∨
        Decimal.Padded version.toList := by
  have text : (offset ++ "-" ++ term ++ "-v" ++ version ++ ".log").toList =
      offset.toList ++ '-' :: (term.toList ++ '-' :: 'v' ::
        (version.toList ++ '.' :: ['l', 'o', 'g'])) := by simp
  have extension : ¬ Decimal.PaddedWithin ['l', 'o', 'g'] := by
    rintro ⟨front, digit, back, split, -⟩
    have zero : '0' ∈ ['l', 'o', 'g'] := by simp [split]
    simp at zero
  rw [text, Decimal.paddedWithin_append_cons first.digits rfl,
    Decimal.paddedWithin_append_cons second.digits rfl, Decimal.paddedWithin_cons rfl,
    Decimal.paddedWithin_append_cons third.digits rfl, or_iff_left extension]

/-- A spelling needs a zero in front of one of its numbers to differ from what is printed. -/
theorem Spells.eq_toString_iff (spelled : Spells text name) :
    text = name.toString ↔ ¬ Decimal.PaddedWithin text.toList := by
  constructor
  · rintro rfl
    rw [toString, paddedWithin_iff (.repr _) (.repr _) (.repr _)]
    simp [Decimal.not_padded_toDigits]
  · intro bare
    obtain ⟨offset, term, version, rfl, first, second, third⟩ := spelled
    rw [paddedWithin_iff first second third, not_or, not_or] at bare
    rw [toString, ← first.eq_repr bare.1, ← second.eq_repr bare.2.1, ← third.eq_repr bare.2.2]

theorem spelling_exact (text : String) (name : SegmentName) :
    (ofString text = some name ↔ Spells text name) ∧
      ofString name.toString = some name ∧
      (ofString text = some name →
        (text = name.toString ↔ ¬ Decimal.PaddedWithin text.toList)) := by
  refine ⟨ofString_eq_some_iff, ofString_eq_some_iff.mpr (spells_toString name), fun read => ?_⟩
  exact (ofString_eq_some_iff.mp read).eq_toString_iff

theorem spelling_exact_padded :
    ofString "00-9-v1.log" = some ⟨0, 9, 1⟩ ∧ Spells "00-9-v1.log" ⟨0, 9, 1⟩ ∧
      Decimal.PaddedWithin "00-9-v1.log".toList ∧ "00-9-v1.log" ≠ SegmentName.toString ⟨0, 9, 1⟩ ∧
      ofString "0-9-v1.log" = some ⟨0, 9, 1⟩ := by
  have read : ofString "00-9-v1.log" = some ⟨0, 9, 1⟩ := rfl
  obtain ⟨grammar, printed, spelling⟩ := spelling_exact "00-9-v1.log" ⟨0, 9, 1⟩
  have other : "00-9-v1.log" ≠ SegmentName.toString ⟨0, 9, 1⟩ := by decide
  exact ⟨read, grammar.mp read, by simpa [other] using spelling read, other, printed⟩

end PartitionLog.SegmentName
