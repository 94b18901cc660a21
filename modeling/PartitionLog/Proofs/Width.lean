import PartitionLog.Proofs.Canonical

/-!
# Where a reader fails

A sequence fails in its first field or, where that is read, behind it (`fails_bind_iff`). A field of
a fixed width fails exactly where there are fewer bytes, and so does a sequence of such fields, with
their widths added up: `HasWidth.bind`.
-/
namespace PartitionLog
namespace Reader

variable {α β : Type} {reader : Reader α} {next : α → Reader β} {input : Bytes}

def Fails (reader : Reader α) (input : Bytes) : Prop :=
  ∃ e rest, reader.run input = (.error e, rest)

theorem ok_or_fails (reader : Reader α) (input : Bytes) :
    (∃ value rest, reader.run input = (.ok value, rest)) ∨ reader.Fails input := by
  unfold Fails
  rcases reader.run input with ⟨e | value, rest⟩
  · exact .inr ⟨e, rest, rfl⟩
  · exact .inl ⟨value, rest, rfl⟩

theorem fails_iff :
    reader.Fails input ↔ ¬ ∃ value rest, reader.run input = (.ok value, rest) := by
  unfold Fails
  rcases reader.run input with ⟨e | value, rest⟩ <;> simp

theorem fails_bind_iff :
    (reader >>= next).Fails input ↔
      reader.Fails input ∨
        ∃ value behind, reader.run input = (.ok value, behind) ∧ (next value).Fails behind := by
  unfold Fails
  rw [run_bind]
  rcases reader.run input with ⟨e | value, behind⟩
  · simp
  · constructor
    · intro failed
      exact .inr ⟨value, behind, rfl, failed⟩
    · rintro (failed | ⟨_, _, same, failed⟩)
      · simp at failed
      · cases same
        exact failed

theorem not_fails_pure (value : α) : ¬ (pure value : Reader α).Fails input := by
  rintro ⟨e, rest, failed⟩
  cases failed

theorem fails_map_iff {f : α → β} : (f <$> reader).Fails input ↔ reader.Fails input := by
  simp only [← bind_pure_comp, fails_bind_iff, not_fails_pure, and_false, exists_false, or_false]

/-- It takes so many bytes, and fails where there are fewer. -/
structure HasWidth (reader : Reader α) (width : Nat) : Prop where
  fails_iff {input : Bytes} : reader.Fails input ↔ input.length < width
  length_eq {input rest : Bytes} {value : α} :
    reader.run input = (.ok value, rest) → input.length = width + rest.length

namespace HasWidth

variable {width width' : Nat}

theorem pure (value : α) : (pure value : Reader α).HasWidth 0 where
  fails_iff := iff_of_false (not_fails_pure value) (Nat.not_lt_zero _)
  length_eq found := by
    cases found
    exact (Nat.zero_add _).symm

theorem bind (first : reader.HasWidth width) (rest : ∀ value, (next value).HasWidth width') :
    (reader >>= next).HasWidth (width + width') where
  fails_iff {input} := by
    rw [fails_bind_iff, first.fails_iff]
    constructor
    · rintro (short | ⟨value, behind, found, failed⟩)
      · omega
      · have length := first.length_eq found
        have short := (rest value).fails_iff.mp failed
        omega
    · intro short
      obtain ⟨value, behind, found⟩ | failed := reader.ok_or_fails input
      · have length := first.length_eq found
        exact .inr ⟨value, behind, found, (rest value).fails_iff.mpr (by omega)⟩
      · exact .inl (first.fails_iff.mp failed)
  length_eq found := by
    obtain ⟨value, behind, taken, found⟩ := run_bind_eq_ok_iff.mp found
    have length := first.length_eq taken
    have length' := (rest value).length_eq found
    omega

theorem map (f : α → β) (whole : reader.HasWidth width) : (f <$> reader).HasWidth width := by
  rw [← bind_pure_comp]
  exact whole.bind fun value => pure (f value)

theorem take (n : Nat) : (take n).HasWidth n where
  fails_iff {input} := by
    unfold Fails
    rw [run_take]
    split <;> simp <;> omega
  length_eq found := by
    obtain ⟨rfl, rfl⟩ := run_take_eq_ok_iff.mp found
    exact List.length_append

theorem fixed (width : Nat) : (Reader.fixed width).HasWidth width := (take width).map _

theorem i8 : Reader.i8.HasWidth 1 := ((fixed 1).map _).map _
theorem u32 : Reader.u32.HasWidth 4 := (fixed 4).map _
theorem i32 : Reader.i32.HasWidth 4 := u32.map _
theorem u64 : Reader.u64.HasWidth 8 := (fixed 8).map _
theorem i64 : Reader.i64.HasWidth 8 := u64.map _

end HasWidth

end Reader

theorem Vnode.hasWidth_read : read.HasWidth 12 :=
  Reader.HasWidth.i32.bind fun _ => Reader.HasWidth.i64.bind fun _ => .pure _

end PartitionLog
