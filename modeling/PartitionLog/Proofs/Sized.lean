import PartitionLog.Proofs.Width

/-!
# Fields behind a length

Bytes behind a 32-bit length are read if the length is not negative and no fewer bytes follow it
(`fails_sizedBytes_iff`), and a text if these are UTF-8 as well (`fails_text_iff`). The name of a
partition is malformed in one of its three fields, behind those that are not:
`Ntp.fails_read_iff`.
-/
namespace PartitionLog
namespace Reader

variable {input rest bytes bs : Bytes}

/-! ## Sized bytes -/

/-- A length that is not negative, and no fewer bytes than it says. -/
def Sized (bytes : Bytes) : Prop :=
  ∃ (length : Int32) (behind : Bytes), bytes = Wire.i32 length ++ behind ∧
    0 ≤ length.toInt ∧ length.toInt ≤ behind.length

theorem run_size_eq_ok_iff {n : Nat} :
    size.run input = (.ok n, rest) ↔
      ∃ length : Int32, length.toInt = n ∧ input = Wire.i32 length ++ rest := by
  rw [size, run_bind_eq_ok_iff]
  constructor
  · rintro ⟨length, behind, taken, sized⟩
    obtain ⟨rfl, -⟩ := Canonical.i32 _ _ _ taken
    split_ifs at sized with negative
    · cases sized
    · cases sized
      exact ⟨length, by omega, rfl⟩
  · rintro ⟨length, stated, rfl⟩
    refine ⟨length, rest, Decodes.i32 length rest, ?_⟩
    rw [stated, if_neg (by omega), Int.toNat_natCast, run_pure]

theorem sized_iff : Sized bytes ↔ ∃ bs rest, sizedBytes.run bytes = (.ok bs, rest) := by
  constructor
  · rintro ⟨length, behind, rfl, natural, enough⟩
    have stated : size.run (Wire.i32 length ++ behind) = (.ok length.toInt.toNat, behind) :=
      run_size_eq_ok_iff.mpr ⟨length, by omega, rfl⟩
    refine ⟨behind.take length.toInt.toNat, behind.drop length.toInt.toNat, ?_⟩
    rw [sizedBytes, run_bind_ok stated, run_take, if_pos (by omega)]
  · rintro ⟨bs, rest, found⟩
    obtain ⟨n, behind, sized, taken⟩ := run_bind_eq_ok_iff.mp found
    obtain ⟨length, stated, rfl⟩ := run_size_eq_ok_iff.mp sized
    obtain ⟨rfl, rfl⟩ := run_take_eq_ok_iff.mp taken
    exact ⟨length, bs ++ rest, rfl, by omega, by simp [stated]⟩

theorem fails_sizedBytes_iff : sizedBytes.Fails bytes ↔ ¬ Sized bytes := by
  rw [sized_iff, fails_iff]

theorem run_sizedBytes_eq_ok_iff :
    sizedBytes.run input = (.ok bs, rest) ↔
      bs.length < 2 ^ 31 ∧ input = Wire.sizedBytes bs ++ rest := by
  constructor
  · intro found
    refine ⟨?_, (Canonical.sizedBytes _ _ _ found).1⟩
    obtain ⟨n, behind, sized, taken⟩ := run_bind_eq_ok_iff.mp found
    obtain ⟨length, stated, rfl⟩ := run_size_eq_ok_iff.mp sized
    obtain ⟨rfl, -⟩ := run_take_eq_ok_iff.mp taken
    have upper := length.toInt_lt
    omega
  · rintro ⟨small, rfl⟩
    exact Decodes.sizedBytes small rest

/-! ## Texts -/

inductive MalformedText : Bytes → Prop
  | unsized {bytes : Bytes} (unsized : ¬ Sized bytes) : MalformedText bytes
  | encoding (bs rest : Bytes) (small : bs.length < 2 ^ 31)
      (invalid : ¬ (ByteArray.mk bs.toArray).IsValidUTF8) :
      MalformedText (Wire.sizedBytes bs ++ rest)

theorem run_text_eq_ok_iff {s : String} :
    text.run input = (.ok s, rest) ↔ s.utf8ByteSize < 2 ^ 31 ∧ input = Wire.text s ++ rest := by
  constructor
  · intro found
    refine ⟨?_, (Canonical.text _ _ _ found).1⟩
    obtain ⟨bs, behind, sized, valid⟩ := run_bind_eq_ok_iff.mp found
    cases decoded : String.fromUTF8? ⟨bs.toArray⟩ with
    | none =>
      rw [decoded] at valid
      cases valid
    | some s' =>
      rw [decoded] at valid
      cases valid
      have length : s.utf8ByteSize = bs.length :=
        congrArg ByteArray.size (Canonical.toUTF8_of_fromUTF8? decoded)
      rw [length]
      exact (run_sizedBytes_eq_ok_iff.mp sized).1
  · rintro ⟨small, rfl⟩
    exact Decodes.text small rest

theorem fails_text_iff : text.Fails bytes ↔ MalformedText bytes := by
  rw [text, fails_bind_iff, fails_sizedBytes_iff]
  constructor
  · rintro (unsized | ⟨bs, behind, found, failed⟩)
    · exact .unsized unsized
    · obtain ⟨small, rfl⟩ := run_sizedBytes_eq_ok_iff.mp found
      refine .encoding bs behind small fun valid => ?_
      rw [String.fromUTF8?, dif_pos valid] at failed
      exact not_fails_pure _ failed
  · intro malformed
    cases malformed with
    | unsized unsized => exact .inl unsized
    | encoding bs behind small invalid =>
      refine .inr ⟨bs, behind, Decodes.sizedBytes small behind, ?_⟩
      rw [String.fromUTF8?, dif_neg invalid]
      exact ⟨.invalidUtf8, behind, rfl⟩

end Reader

/-! ## Partition names -/

namespace Ntp

inductive Malformed : Bytes → Prop
  | ns {bytes : Bytes} (malformed : Reader.MalformedText bytes) : Malformed bytes
  | topic (ns : String) {behind : Bytes} (small : ns.utf8ByteSize < 2 ^ 31)
      (malformed : Reader.MalformedText behind) : Malformed (Wire.text ns ++ behind)
  | partition (ns topic : String) {behind : Bytes} (small : ns.utf8ByteSize < 2 ^ 31)
      (small' : topic.utf8ByteSize < 2 ^ 31) (short : behind.length < 4) :
      Malformed (Wire.text ns ++ (Wire.text topic ++ behind))

theorem fails_read_iff {bytes : Bytes} : read.Fails bytes ↔ Malformed bytes := by
  simp only [read, Reader.fails_bind_iff, Reader.fails_text_iff, Reader.run_text_eq_ok_iff,
    Reader.HasWidth.i32.fails_iff, Reader.not_fails_pure, and_false, exists_false, or_false]
  constructor
  · rintro (malformed | ⟨ns, _, ⟨small, rfl⟩, malformed | ⟨topic, _, ⟨small', rfl⟩, short⟩⟩)
    · exact .ns malformed
    · exact .topic ns small malformed
    · exact .partition ns topic small small' short
  · intro malformed
    cases malformed with
    | ns malformed => exact .inl malformed
    | topic ns small malformed => exact .inr ⟨ns, _, ⟨small, rfl⟩, .inl malformed⟩
    | partition ns topic small small' short =>
      exact .inr ⟨ns, _, ⟨small, rfl⟩, .inr ⟨topic, _, ⟨small', rfl⟩, short⟩⟩

end Ntp
end PartitionLog
