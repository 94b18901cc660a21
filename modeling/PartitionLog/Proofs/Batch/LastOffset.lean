import PartitionLog.Proofs.Batch.Records

/-!
# Where a batch ends

The header of a batch tells its end in two ways: the offset delta of the last record, and the number
of records. In a built batch with increasing offsets the delta leads to the last record, whatever
records are missing in between. The last offset goes by the number, so it is the last record's only
if none are missing: `lastOffset_build`.
-/
namespace PartitionLog

/-! ## Increasing numbers -/

/-- Increasing numbers from `k` on run ahead of their places, and keep up with them to the last
only if every number is `k` and its place. -/
theorem add_length_le_last {xs : List Int} {k last : Int} (above : ∀ x ∈ xs ++ [last], k ≤ x)
    (increasing : (xs ++ [last]).Pairwise (· < ·)) :
    k + xs.length ≤ last ∧
      (k + xs.length = last ↔ ∀ (i : Nat) (x : Int), (xs ++ [last])[i]? = some x → x = k + i) := by
  induction xs generalizing k with
  | nil =>
    have first : k ≤ last := above last (by simp)
    refine ⟨by simpa using first, fun reached i x found => ?_, fun placed => ?_⟩
    · grind
    · exact (placed 0 last rfl).symm
  | cons x xs ih =>
    obtain ⟨below, increasing⟩ := List.pairwise_cons.mp increasing
    have first : k ≤ x := above x (by simp)
    -- Behind `x` the numbers start at `x + 1`, and so at `k + 1`.
    obtain ⟨ahead, -⟩ := ih (k := x + 1) below increasing
    have above : ∀ y ∈ xs ++ [last], k + 1 ≤ y := fun y member => by
      have behind : x < y := below y member
      omega
    obtain ⟨-, kept⟩ := ih above increasing
    rw [List.length_cons]
    refine ⟨by omega, fun reached i y found => ?_, fun placed => ?_⟩
    · cases i with
      | zero =>
        obtain rfl : x = y := Option.some.inj found
        omega
      | succ i =>
        have place := kept.mp (by omega) i y found
        omega
    · have rest := kept.mpr fun i y found => by
        have place := placed (i + 1) y found
        omega
      omega

instance lawfulOrderMaxInt32 : Std.LawfulOrderMax Int32 where
  max_eq_or a b := by
    change (if a ≤ b then b else a) = a ∨ (if a ≤ b then b else a) = b
    split <;> simp
  max_le_iff a b c := by
    change (if a ≤ b then b else a) ≤ c ↔ a ≤ c ∧ b ≤ c
    split
    · rename_i le
      exact ⟨fun below => ⟨Int32.le_trans le below, below⟩, And.right⟩
    · rename_i gt
      have le : b ≤ a := Int32.le_of_lt (Int32.not_le.mp gt)
      exact ⟨fun below => ⟨below, Int32.le_trans le below⟩, And.left⟩

namespace BatchDraft

/-- The offset deltas are such as a log assigns. Some may be missing. -/
structure Ordered (draft : BatchDraft) : Prop where
  nonnegative : ∀ r ∈ draft.records, 0 ≤ r.offsetDelta.toInt
  bounded : ∀ r ∈ draft.records, r.offsetDelta.toInt < 2 ^ 31
  increasing : draft.records.Pairwise fun a b => a.offsetDelta < b.offsetDelta

/-- The offset delta of each record is its place, as `pushKeyValue` makes it. -/
def Gapless (draft : BatchDraft) : Prop :=
  ∀ (i : Nat) (r : Record), draft.records[i]? = some r → r.offsetDelta.toInt = i

namespace Ordered

variable {draft : BatchDraft} {before : List Record} {last : Record}

theorem toInt_offsetDelta (ordered : draft.Ordered) {r : Record} (member : r ∈ draft.records) :
    r.offsetDelta.toInt32.toInt = r.offsetDelta.toInt := by
  have lower := ordered.nonnegative r member
  have upper := ordered.bounded r member
  rw [Int64.toInt_toInt32, Int.bmod_eq_of_le] <;> omega

theorem lastOffsetDelta_eq (ordered : draft.Ordered) (ends : draft.records = before ++ [last]) :
    draft.lastOffsetDelta = last.offsetDelta.toInt32 := by
  have listed : last ∈ draft.records := by simp [ends]
  have greatest : (draft.records.map fun r => r.offsetDelta.toInt32).max? =
      some last.offsetDelta.toInt32 := by
    refine List.max?_eq_some_iff.mpr ⟨List.mem_map_of_mem listed, ?_⟩
    rintro _ delta
    obtain ⟨r, member, rfl⟩ := List.mem_map.mp delta
    rw [Int32.le_iff_toInt_le, ordered.toInt_offsetDelta member, ordered.toInt_offsetDelta listed]
    have increasing := ordered.increasing
    rw [ends] at increasing member
    cases List.mem_append.mp member with
    | inl earlier =>
      have below := (List.pairwise_append.mp increasing).2.2 r earlier last (by simp)
      exact Int.le_of_lt (Int64.lt_iff_toInt_lt.mp below)
    | inr same => rw [List.mem_singleton.mp same]
  rw [lastOffsetDelta, greatest, Option.getD_some]

/-- There are no more records than offsets up to the last. -/
theorem length_before (ordered : draft.Ordered) (ends : draft.records = before ++ [last]) :
    before.length ≤ last.offsetDelta.toInt ∧
      (before.length = last.offsetDelta.toInt ↔ draft.Gapless) := by
  have deltas : before.map (·.offsetDelta.toInt) ++ [last.offsetDelta.toInt] =
      draft.records.map (·.offsetDelta.toInt) := by
    simp [ends]
  have above : ∀ x ∈ draft.records.map (·.offsetDelta.toInt), (0 : Int) ≤ x :=
    List.forall_mem_map.mpr ordered.nonnegative
  have increasing : (draft.records.map (·.offsetDelta.toInt)).Pairwise (· < ·) :=
    List.pairwise_map.mpr (ordered.increasing.imp Int64.lt_iff_toInt_lt.mp)
  rw [← deltas] at above increasing
  have counted := add_length_le_last above increasing
  rw [deltas] at counted
  simpa [Gapless] using counted

theorem toInt_lastOffset (ordered : draft.Ordered) (ends : draft.records = before ++ [last])
    (few : draft.records.length < 2 ^ 31)
    (room : draft.baseOffset.toInt + last.offsetDelta.toInt < 2 ^ 63) :
    draft.build.header.lastOffset.toInt = draft.baseOffset.toInt + before.length := by
  have count : draft.build.header.recordCount.toInt64.toInt = draft.records.length := by
    rw [Int32.toInt_toInt64]
    exact Int32.toInt_ofNat_of_lt few
  have base : draft.build.header.baseOffset = draft.baseOffset := rfl
  have one : (1 : Int64).toInt = 1 := rfl
  have lower := draft.baseOffset.le_toInt
  have length := congrArg List.length ends
  rw [List.length_append, List.length_singleton] at length
  obtain ⟨within, -⟩ := ordered.length_before ends
  rw [BatchHeader.lastOffset, Int64.toInt_sub, Int64.toInt_add, count, base, one,
    Int.bmod_sub_bmod, Int.bmod_eq_of_le] <;> omega

theorem toInt_offset_last (ordered : draft.Ordered) (ends : draft.records = before ++ [last])
    (room : draft.baseOffset.toInt + last.offsetDelta.toInt < 2 ^ 63) :
    (draft.build.header.baseOffset + draft.build.header.lastOffsetDelta.toInt64).toInt =
      draft.baseOffset.toInt + last.offsetDelta.toInt := by
  have listed : last ∈ draft.records := by simp [ends]
  have delta : draft.build.header.lastOffsetDelta.toInt64.toInt = last.offsetDelta.toInt := by
    rw [Int32.toInt_toInt64, ← ordered.toInt_offsetDelta listed]
    exact congrArg Int32.toInt (ordered.lastOffsetDelta_eq ends)
  have base : draft.build.header.baseOffset = draft.baseOffset := rfl
  have lower := draft.baseOffset.le_toInt
  have nonnegative := ordered.nonnegative last listed
  rw [Int64.toInt_add, delta, base, Int.bmod_eq_of_le] <;> omega

/-- One record more than the header can count is the most there can be. -/
theorem lastOffset_ne_of_le (ordered : draft.Ordered) (ends : draft.records = before ++ [last])
    (many : 2 ^ 31 ≤ draft.records.length) :
    draft.build.header.lastOffset ≠
      draft.build.header.baseOffset + draft.build.header.lastOffsetDelta.toInt64 := by
  have listed : last ∈ draft.records := by simp [ends]
  have length := congrArg List.length ends
  rw [List.length_append, List.length_singleton] at length
  obtain ⟨within, -⟩ := ordered.length_before ends
  have upper := ordered.bounded last listed
  have all : draft.records.length = 2 ^ 31 := by omega
  have count : draft.build.header.recordCount = Int32.minValue :=
    congrArg Int32.ofNat all
  have delta : draft.build.header.lastOffsetDelta = Int32.maxValue := by
    refine (ordered.lastOffsetDelta_eq ends).trans (Int32.toInt_inj.mp ?_)
    rw [ordered.toInt_offsetDelta listed, Int32.toInt_maxValue]
    omega
  rw [BatchHeader.lastOffset, count, delta]
  intro same
  have constant : Int32.minValue.toInt64 = Int32.maxValue.toInt64 + 1 := by grind
  exact absurd constant (by decide)

theorem lastOffset_eq_iff (ordered : draft.Ordered) (ends : draft.records = before ++ [last])
    (room : draft.baseOffset.toInt + last.offsetDelta.toInt < 2 ^ 63) :
    draft.build.header.lastOffset =
        draft.build.header.baseOffset + draft.build.header.lastOffsetDelta.toInt64 ↔
      draft.records.length < 2 ^ 31 ∧ draft.Gapless := by
  by_cases few : draft.records.length < 2 ^ 31
  · rw [← Int64.toInt_inj, ordered.toInt_lastOffset ends few room,
      ordered.toInt_offset_last ends room, ← (ordered.length_before ends).2]
    omega
  · exact iff_of_false (ordered.lastOffset_ne_of_le ends (Nat.le_of_not_lt few))
      fun counted => few counted.1

end Ordered

/-- The offset delta of a built batch leads to its last record, which reading returns last. The last
offset is as far from the first as there are records in between, and so is short of it by every
offset that is missing. -/
theorem lastOffset_build {draft : BatchDraft} {before : List Record} {last : Record}
    (ordered : draft.Ordered) (ends : draft.records = before ++ [last])
    (room : draft.baseOffset.toInt + last.offsetDelta.toInt < 2 ^ 63)
    (small : draft.region.length < 2 ^ 63) :
    (draft.build.header.baseOffset + draft.build.header.lastOffsetDelta.toInt64).toInt =
        draft.baseOffset.toInt + last.offsetDelta.toInt ∧
      (draft.build.header.lastOffset =
          draft.build.header.baseOffset + draft.build.header.lastOffsetDelta.toInt64 ↔
        draft.records.length < 2 ^ 31 ∧ draft.Gapless) ∧
      (draft.records.length < 2 ^ 31 →
        draft.build.header.lastOffset.toInt = draft.baseOffset.toInt + before.length ∧
        before.length ≤ last.offsetDelta.toInt ∧
        ∀ config, ∃ front final, draft.build.decodeRecords config = .ok (front ++ [final]) ∧
          final.offsetDelta = last.offsetDelta) := by
  refine ⟨ordered.toInt_offset_last ends room, ordered.lastOffset_eq_iff ends room, fun few =>
    ⟨ordered.toInt_lastOffset ends few room, (ordered.length_before ends).1, fun config => ?_⟩⟩
  refine ⟨before.map Record.asWritten, last.asWritten, ?_, rfl⟩
  rw [draft.decodeRecords_of_lt config few small, ends, List.map_append, List.map_singleton]

/-- A batch whose second record is gone, for examples. -/
def compacted : BatchDraft where
  baseOffset := 10
  batchType := 1
  records := [.ofKeyValue 0 0 (some [1]) none, .ofKeyValue 2 0 (some [2]) none]

theorem ordered_compacted : compacted.Ordered := ⟨by decide, by decide, by decide⟩

theorem lastOffset_build_compacted :
    compacted.Ordered ∧ compacted.records.length < 2 ^ 31 ∧
      (compacted.build.header.baseOffset + compacted.build.header.lastOffsetDelta.toInt64).toInt =
        12 ∧
      compacted.build.header.lastOffset.toInt = 11 ∧
      ∃ front final, compacted.build.decodeRecords {} = .ok (front ++ [final]) ∧
        final.offsetDelta = 2 := by
  have few : compacted.records.length < 2 ^ 31 := by decide
  have ends : compacted.records =
      [.ofKeyValue 0 0 (some [1]) none] ++ [.ofKeyValue 2 0 (some [2]) none] := rfl
  obtain ⟨reached, -, counted⟩ := lastOffset_build ordered_compacted ends (by decide) (by decide)
  obtain ⟨named, -, decoded⟩ := counted few
  exact ⟨ordered_compacted, few, reached, named, decoded {}⟩

/-- The last offset is that of the record that is gone. -/
theorem lastOffset_build_gap :
    compacted.Ordered ∧ compacted.records ≠ [] ∧
      compacted.baseOffset.toInt + compacted.build.header.lastOffsetDelta.toInt < 2 ^ 63 ∧
      compacted.build.header.lastOffset ≠
        compacted.build.header.baseOffset + compacted.build.header.lastOffsetDelta.toInt64 :=
  ⟨ordered_compacted, by decide, by decide, by decide⟩

end BatchDraft
end PartitionLog
