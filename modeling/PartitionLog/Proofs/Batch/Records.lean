import PartitionLog.Proofs.Batch.Building
import PartitionLog.Proofs.Wire

/-!
# Records read back

The records of a built batch come back in their order (`decodeRecords_build`). Each has the length
of its body then, and what has no bytes in it, be it a key or a value, is absent.
-/
namespace PartitionLog
open Reader

/-! ## Absent and empty bytes, of which the wire knows only one -/

theorem getD_filter_ne_nil (bs : Option Bytes) : (bs.filter (· ≠ [])).getD [] = bs.getD [] := by
  rcases bs with _ | _ | _ <;> rfl

theorem filter_ne_nil_of_ne {bs : Option Bytes} (some : bs.getD [] ≠ []) :
    bs.filter (· ≠ []) = bs := by
  rcases bs with _ | _ | _
  · rfl
  · exact absurd rfl some
  · rfl

theorem filter_ne_nil_of_eq {bs : Option Bytes} (none : bs.getD [] = []) :
    bs.filter (· ≠ []) = .none := by
  rcases bs with _ | _ | _
  · rfl
  · rfl
  · exact absurd none (List.cons_ne_nil _ _)

/-! ## Records -/

namespace RecordHeader

def asWritten (header : RecordHeader) : RecordHeader :=
  { header with value := header.value.filter (· ≠ []) }

theorem length_write_pos (header : RecordHeader) : 0 < header.write.length := by
  have key := Wire.length_lt_nullableBytes (Option.mem_some_self header.key)
  rw [write, List.length_append]
  omega

theorem decodes_write (header : RecordHeader) (small : header.write.length < 2 ^ 63) :
    read.Decodes header.write header.asWritten := by
  rw [write, List.length_append] at small
  have key : ∀ bs ∈ some header.key, bs.length < 2 ^ 63 := by
    intro bs present
    have shorter := Wire.length_lt_nullableBytes present
    omega
  have value : ∀ bs ∈ header.value, bs.length < 2 ^ 63 := by
    intro bs present
    have shorter := Wire.length_lt_nullableBytes present
    omega
  refine (Decodes.nullableBytes _ key).bind ?_
  rw [getD_filter_ne_nil, Option.getD_some]
  exact (Decodes.nullableBytes _ value).bind_pure _

end RecordHeader

namespace Record

def asWritten (r : Record) : Record where
  length := Int64.ofNat r.body.length
  attributes := r.attributes
  timestampDelta := r.timestampDelta
  offsetDelta := r.offsetDelta
  key := r.key.filter (· ≠ [])
  value := r.value.filter (· ≠ [])
  headers := r.headers.map RecordHeader.asWritten

theorem length_write_pos (r : Record) : 0 < r.write.length := by
  rw [length_write, writtenLength]
  exact Nat.add_pos_left (Varint.length_pos _) _

theorem length_key_lt {r : Record} {key : Bytes} (present : key ∈ r.key) :
    key.length < r.write.length := by
  have shorter := Wire.length_lt_nullableBytes present
  simp only [write, body, List.length_append]
  omega

theorem length_value_lt {r : Record} {value : Bytes} (present : value ∈ r.value) :
    value.length < r.write.length := by
  have shorter := Wire.length_lt_nullableBytes present
  simp only [write, body, List.length_append]
  omega

theorem length_headers_le (r : Record) :
    (r.headers.flatMap RecordHeader.write).length ≤ r.write.length := by
  simp only [write, body, List.length_append]
  omega

theorem decodes_write (r : Record) (small : r.write.length < 2 ^ 63) :
    read.Decodes r.write r.asWritten := by
  have key : ∀ bs ∈ r.key, bs.length < 2 ^ 63 := fun _ present =>
    Nat.lt_trans (length_key_lt present) small
  have value : ∀ bs ∈ r.value, bs.length < 2 ^ 63 := fun _ present =>
    Nat.lt_trans (length_value_lt present) small
  have region := r.length_headers_le
  have headers : ∀ header ∈ r.headers,
      RecordHeader.read.Decodes header.write header.asWritten := by
    intro header member
    have shorter := length_le_flatMap RecordHeader.write member
    exact header.decodes_write (by omega)
  have count : (Int64.ofNat r.headers.length).toInt.toNat = r.headers.length := by
    have fewer := count_le_flatMap fun (header : RecordHeader) (_ : header ∈ r.headers) =>
      header.length_write_pos
    rw [Int64.toInt_ofNat_of_lt (by omega), Int.toNat_natCast]
  refine .of_eq ?_ <| (Decodes.varint (Int64.ofNat r.body.length)).bind <|
    (Decodes.i8 r.attributes).bind <| (Decodes.varint r.timestampDelta).bind <|
    (Decodes.varint r.offsetDelta).bind <| (Decodes.nullableBytes r.key key).bind <|
    (Decodes.nullableBytes r.value value).bind <|
    (Decodes.varint (Int64.ofNat r.headers.length)).bind <|
    (Decodes.replicate r.headers count headers).bind_pure _
  simp only [write, body, List.append_assoc]

end Record

namespace BatchDraft

theorem count_le_region (draft : BatchDraft) : draft.records.length ≤ draft.region.length :=
  count_le_flatMap fun (r : Record) (_ : r ∈ draft.records) => r.length_write_pos

theorem recordCount_of_lt (draft : BatchDraft) (few : draft.records.length < 2 ^ 31) :
    draft.build.recordCount = draft.records.length := by
  have count : draft.build.header.recordCount.toInt = draft.records.length :=
    Int32.toInt_ofNat_of_lt few
  rw [Batch.recordCount, count, Int.toNat_natCast]

/-- The records fill their region, so both ways of accounting for it take them. -/
theorem decodeRecords_of_lt (draft : BatchDraft) (config : ReaderConfig)
    (few : draft.records.length < 2 ^ 31) (small : draft.region.length < 2 ^ 63) :
    draft.build.decodeRecords config = .ok (draft.records.map Record.asWritten) := by
  have each : ∀ r ∈ draft.records, Record.read.Decodes r.write r.asWritten := by
    intro r member
    have shorter : r.write.length ≤ draft.region.length := length_le_flatMap Record.write member
    exact r.decodes_write (by omega)
  have answer : (replicate Record.read draft.build.recordCount).run draft.build.records = _ :=
    (Decodes.replicate draft.records (draft.recordCount_of_lt few) each).run
  simp [Batch.decodeRecords, answer]

theorem decodeRecords_build (draft : BatchDraft) (config : ReaderConfig)
    (representable : BatchHeader.size + draft.region.length ≤ Int32.maxValue.toInt) :
    draft.build.decodeRecords config = .ok (draft.records.map Record.asWritten) := by
  have fewer := draft.count_le_region
  rw [Int32.toInt_maxValue] at representable
  exact draft.decodeRecords_of_lt config (by omega) (by omega)

end BatchDraft
end PartitionLog
