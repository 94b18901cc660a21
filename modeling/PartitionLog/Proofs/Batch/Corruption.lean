import Mathlib.Tactic.ByContra
import PartitionLog.Proofs.Batch.Building
import PartitionLog.Proofs.Checksum

/-!
# Corruption is found

Where a batch has been read, a burst of up to four bytes in its records is reported with the header
and the damaged records. A flipped bit in its header never lets a batch through: no header with one
is sound (`flipped_crc_ne`) or zero (`flipped_present`), so it is reported too, unless a batch size
it changes asks for more than the stream still holds.
-/
namespace PartitionLog
open Bytes

namespace BatchHeader

/-! ## A header with a flipped bit -/

variable {header : BatchHeader} {bit : Nat}

def flipped (header : BatchHeader) (bit : Nat) : BatchHeader := ofBytes (flipBit bit header.write)

theorem write_flipped (header : BatchHeader) (bit : Nat) :
    (header.flipped bit).write = flipBit bit header.write :=
  write_ofBytes _ (by rw [length_flipBit, length_write])

theorem flipped_parts (header : BatchHeader) (bit : Nat) (inHeader : bit < 8 * size) :
    (header.flipped bit).checkedBytes = header.checkedBytes ∧
        Wire.u32 (header.flipped bit).headerCrc ≠ Wire.u32 header.headerCrc ∨
      Burst 1 header.checkedBytes (header.flipped bit).checkedBytes ∧
        Wire.u32 (header.flipped bit).headerCrc = Wire.u32 header.headerCrc := by
  have layout := write_flipped header bit
  have whole := header.length_write
  rw [write_eq_checkedBytes] at whole
  rw [write_eq_checkedBytes, write_eq_checkedBytes] at layout
  by_cases inCrc : bit < 32
  · left
    rw [flipBit_append_left bit _ _ (by rw [Wire.length_u32]; exact inCrc)] at layout
    obtain ⟨front, back⟩ := List.append_inj layout (by
      rw [length_flipBit, Wire.length_u32, Wire.length_u32])
    refine ⟨back, ?_⟩
    rw [front]
    exact (burst_flipBit bit _ (by rw [Wire.length_u32]; exact inCrc)).ne.symm
  · right
    rw [flipBit_append_right bit _ _ (by rw [Wire.length_u32]; omega), Wire.length_u32] at layout
    obtain ⟨front, back⟩ := List.append_inj layout (by rw [Wire.length_u32, Wire.length_u32])
    refine ⟨?_, front⟩
    rw [back]
    rw [List.length_append, Wire.length_u32] at whole
    rw [size] at whole inHeader
    exact burst_flipBit _ _ (by omega)

theorem flipped_crc_ne (sound : header.computedHeaderCrc = header.headerCrc)
    (inHeader : bit < 8 * size) :
    (header.flipped bit).computedHeaderCrc ≠ (header.flipped bit).headerCrc := by
  intro passed
  cases flipped_parts header bit inHeader with
  | inl parts =>
    obtain ⟨checked, stored⟩ := parts
    rw [← passed, ← sound, computedHeaderCrc, checked, computedHeaderCrc] at stored
    exact stored rfl
  | inr parts =>
    obtain ⟨burst, stored⟩ := parts
    have crc := Wire.u32_inj _ _ stored
    rw [← passed, ← sound] at crc
    exact Checksum.extend_ne_of_burst 0 _ _ (burst.mono (by omega)) crc.symm

theorem flipped_recordsSize (header : BatchHeader) (outside : bit < 32 ∨ 64 ≤ bit) :
    (header.flipped bit).recordsSize = header.recordsSize := by
  have kept : numberAt (flipBit bit header.write) 4 4 = numberAt header.write 4 4 := by
    cases outside with
    | inl before => rw [numberAt, numberAt, drop_flipBit bit 4 _ (by omega)]
    | inr behind =>
      have window (bs : Bytes) : (bs.take (4 + 4)).drop 4 = (bs.drop 4).take 4 := List.drop_take
      rw [numberAt, numberAt, ← window, ← window, take_flipBit bit (4 + 4) _ (by omega)]
  have same : (header.flipped bit).batchSize = header.batchSize := by
    calc (header.flipped bit).batchSize
      _ = (UInt32.ofNat (numberAt (flipBit bit header.write) 4 4)).toInt32 := rfl
      _ = (ofBytes header.write).batchSize := by rw [kept]; rfl
      _ = header.batchSize := by rw [ofBytes_write]
  rw [recordsSize, recordsSize, same]

/-! ## Headers of nothing but a batch size -/

set_option maxRecDepth 20000 in
theorem computedHeaderCrc_negativeSize :
    computedHeaderCrc { batchSize := -628251323 } = 0 := by
  decide

theorem checkedBytes_sizeOnly (batchSize : Int32) :
    checkedBytes { batchSize } = Wire.i32 batchSize ++ (checkedBytes {}).drop 4 := by
  simp only [checkedBytes_eq, List.append_assoc]
  rfl

theorem recordsSize_sizeOnly (batchSize : Int32)
    (zero : computedHeaderCrc { batchSize } = 0) : recordsSize { batchSize } = none := by
  -- The size is a window of four bytes, so no other one has this checksum.
  have only : batchSize = -628251323 := by
    by_contra differ
    have layout := checkedBytes_sizeOnly batchSize
    have layout' := checkedBytes_sizeOnly (-628251323)
    have window : Burst 4 (checkedBytes { batchSize }) (checkedBytes { batchSize := -628251323 }) :=
      ⟨[], Wire.i32 batchSize, Wire.i32 (-628251323), _, layout, layout', by
        rw [Wire.length_i32, Wire.length_i32], by rw [Wire.length_i32],
        fun same => differ (Wire.i32_inj _ _ same)⟩
    apply Checksum.extend_ne_of_burst 0 _ _ window
    exact zero.trans computedHeaderCrc_negativeSize.symm
  subst only
  rfl

set_option maxRecDepth 20000 in
theorem flipped_empty : ∀ place < 32,
    flipped {} (32 + place) = { batchSize := (flipped {} (32 + place)).batchSize } := by
  decide

/-- No header with a single bit set is one of a batch. -/
theorem flipped_empty_ne (sound : header.computedHeaderCrc = header.headerCrc) (declared : Nat)
    (present : header.recordsSize = some declared) : flipped {} bit ≠ header := by
  intro same
  by_cases outside : bit < 32 ∨ 64 ≤ bit
  · have none := flipped_recordsSize {} outside
    rw [same, present] at none
    cases none
  · have place : 32 + (bit - 32) = bit := by omega
    have sizeOnly := flipped_empty (bit - 32) (by omega)
    rw [place, same] at sizeOnly
    rw [sizeOnly] at sound present
    rw [recordsSize_sizeOnly _ sound] at present
    cases present

theorem flipped_present (bit : Nat) (sound : header.computedHeaderCrc = header.headerCrc)
    (declared : Nat) (present : header.recordsSize = some declared) :
    (header.flipped bit).isZeroed = false := by
  apply Bool.eq_false_iff.mpr
  intro zeroed
  have empty : header.flipped bit = {} := of_decide_eq_true zeroed
  have back : flipped {} bit = header := by
    apply write_inj
    rw [write_flipped, ← empty, write_flipped, flipBit_flipBit]
  exact flipped_empty_ne sound declared present back

end BatchHeader

namespace Batch

variable {config : ReaderConfig} {index filePosition : Nat} {batch : Batch}

/-! ## Reading damaged records -/

theorem readNext_damagedRecords {source stream : ByteStream} {damaged following : Bytes}
    (accepted : (readNext config index filePosition source).1 = .ok (some batch))
    (burst : Burst 4 batch.records damaged)
    (altered : stream.delivered = batch.header.write ++ damaged ++ following) :
    (readNext config index filePosition stream).1 =
      .error (.bodyCrcMismatch (batch.header.computedCrc damaged)
        { batch with records := damaged }) := by
  obtain ⟨intact, rfl, rfl, _⟩ := (readNext_eq_some_iff source).mp accepted
  have limit : bodyLimit config batch.header = damaged.length := by
    rw [bodyLimit_le _ intact.size intact.within, burst.length_eq]
  have differ : batch.header.computedCrc damaged ≠ batch.header.crc := by
    rw [← intact.crc]
    exact (Checksum.extend_ne_of_burst _ _ _ burst).symm
  rw [readNext_fst, altered, List.append_assoc, outcome_write,
    bodyOutcome_append _ _ (not_isZeroed _ intact.size) limit]
  simp [accept, intact.headerCrc, intact.size, Nat.not_lt.mpr intact.within, differ, Except.map]

def oneRecord : Batch :=
  (({ baseOffset := 7, batchType := 1 } : BatchDraft).pushKeyValue (some [1]) (some [2, 3])).build

theorem intact_oneRecord : Intact {} oneRecord :=
  (BatchDraft.Fits.of_le (by decide) (Nat.le_refl _) (by decide)).intact

theorem readNext_oneRecord :
    (readNext {} 0 0 (.ofBytes (oneRecord.write ++ [4]))).1 = .ok (some oneRecord) :=
  (readNext_eq_some_iff _).mpr ⟨intact_oneRecord, rfl, rfl, [4], ByteStream.delivered_ofBytes _⟩

def oneRecordDamaged : Bytes := oneRecord.records.take 3 ++ [0, 0, 9, 0] ++ oneRecord.records.drop 7

set_option maxRecDepth 20000 in
theorem readNext_damagedRecords_oneRecord :
    let source := ByteStream.ofBytes (oneRecord.write ++ [4])
    let stream := ByteStream.ofBytes (oneRecord.header.write ++ oneRecordDamaged ++ [4])
    (readNext {} 0 0 source).1 = .ok (some oneRecord) ∧
      (readNext {} 0 0 stream).1 =
        .error (.bodyCrcMismatch (oneRecord.header.computedCrc oneRecordDamaged)
          { oneRecord with records := oneRecordDamaged }) := by
  intro source stream
  have accepted : (readNext {} 0 0 source).1 = .ok (some oneRecord) := readNext_oneRecord
  have burst : Burst 4 oneRecord.records oneRecordDamaged :=
    ⟨oneRecord.records.take 3, (oneRecord.records.drop 3).take 4, [0, 0, 9, 0],
      oneRecord.records.drop 7, by decide, rfl, by decide, by decide,
      by decide⟩
  exact ⟨accepted, readNext_damagedRecords accepted burst (ByteStream.delivered_ofBytes _)⟩

/-! ## Reading behind a damaged header -/

theorem bodyOutcome_of_crc_ne {header : BatchHeader} (body : Bytes) (stop : Option IoError)
    (present : header.isZeroed = false)
    (differ : header.computedHeaderCrc ≠ header.headerCrc) :
    bodyOutcome config index filePosition header body stop =
      if body.length < bodyLimit config header then ended stop
      else .error (.headerCrcMismatch header.computedHeaderCrc
        { header, records := [], index, filePosition }) := by
  simp [bodyOutcome, present, accept, differ, Except.map]

theorem readNext_flipped {header : BatchHeader} {stream : ByteStream} {body : Bytes}
    {bit declared : Nat} (sound : header.computedHeaderCrc = header.headerCrc)
    (present : header.recordsSize = some declared) (inHeader : bit < 8 * BatchHeader.size)
    (altered : stream.delivered = flipBit bit (header.write ++ body)) :
    (readNext config index filePosition stream).1 =
      if body.length < bodyLimit config (header.flipped bit) then ended stream.failure
      else .error (.headerCrcMismatch (header.flipped bit).computedHeaderCrc
        { header := header.flipped bit, records := [], index, filePosition }) := by
  have layout : stream.delivered = (header.flipped bit).write ++ body := by
    rw [altered, BatchHeader.write_flipped]
    exact flipBit_append_left bit _ _ (by rw [BatchHeader.length_write]; exact inHeader)
  rw [readNext_fst, layout, outcome_write]
  exact bodyOutcome_of_crc_ne _ _ (BatchHeader.flipped_present bit sound _ present)
    (BatchHeader.flipped_crc_ne sound inHeader)

theorem readNext_flippedHeader {source stream : ByteStream} {bit : Nat}
    (accepted : (readNext config index filePosition source).1 = .ok (some batch))
    (inHeader : bit < 8 * BatchHeader.size)
    (altered : stream.delivered = source.delivered.flipBit bit) :
    (∀ found, (readNext config index filePosition stream).1 ≠ .ok (some found)) ∧
      (bodyLimit config (batch.header.flipped bit) ≤
          stream.delivered.length - BatchHeader.size →
        (readNext config index filePosition stream).1 =
          .error (.headerCrcMismatch (batch.header.flipped bit).computedHeaderCrc
            { header := batch.header.flipped bit, records := [], index, filePosition })) ∧
      (stream.delivered.length - BatchHeader.size <
          bodyLimit config (batch.header.flipped bit) →
        32 ≤ bit ∧ bit < 64 ∧
          (readNext config index filePosition stream).1 = ended stream.failure) := by
  obtain ⟨intact, rfl, rfl, following, held⟩ := (readNext_eq_some_iff source).mp accepted
  rw [held, write, List.append_assoc] at altered
  have length :
      stream.delivered.length - BatchHeader.size = (batch.records ++ following).length := by
    rw [altered, length_flipBit, List.length_append, BatchHeader.length_write,
      Nat.add_sub_cancel_left]
  have inSize (short : (batch.records ++ following).length <
      bodyLimit config (batch.header.flipped bit)) : 32 ≤ bit ∧ bit < 64 := by
    by_contra outside
    have size : (batch.header.flipped bit).recordsSize = some batch.records.length := by
      rw [BatchHeader.flipped_recordsSize _ (by omega), intact.size]
    rw [bodyLimit_le _ size intact.within, List.length_append] at short
    omega
  rw [length, readNext_flipped intact.headerCrc intact.size inHeader altered]
  by_cases short :
      (batch.records ++ following).length < bodyLimit config (batch.header.flipped bit)
  · rw [if_pos short]
    obtain ⟨low, high⟩ := inSize short
    exact ⟨fun found => ended_ne_some, fun long => absurd short (Nat.not_lt.mpr long),
      fun _ => ⟨low, high, rfl⟩⟩
  · rw [if_neg short]
    refine ⟨?_, fun _ => rfl, fun late => absurd late short⟩
    intro found same
    cases same

set_option maxRecDepth 20000 in
theorem readNext_flippedHeader_oneRecord :
    let source := ByteStream.ofBytes (oneRecord.write ++ [4])
    let stream := ByteStream.ofBytes (flipBit 48 (oneRecord.write ++ [4]))
    (readNext {} 0 0 source).1 = .ok (some oneRecord) ∧ (readNext {} 0 0 stream).1 = .ok none := by
  intro source stream
  have accepted : (readNext {} 0 0 source).1 = .ok (some oneRecord) := readNext_oneRecord
  have altered : stream.delivered = source.delivered.flipBit 48 := by
    rw [ByteStream.delivered_ofBytes, ByteStream.delivered_ofBytes]
  have answer := readNext_flippedHeader accepted (by decide) altered
  obtain ⟨_, _, ending⟩ := answer.2.2 (by decide)
  rw [ByteStream.failure_ofBytes] at ending
  exact ⟨accepted, ending⟩

def noRecords : Batch := ({ baseOffset := 7, batchType := 1 } : BatchDraft).build

set_option maxRecDepth 20000 in
/-- What is read behind a header ends at the size limit, so a size far beyond the limit is no
reason to take the data for cut off. -/
theorem readNext_flippedHeader_beyondLimit :
    let config : ReaderConfig := { maxBatchSize := BatchHeader.size }
    let behind : Bytes := List.replicate 62 0
    (readNext config 0 0 (.ofBytes (noRecords.write ++ behind))).1 = .ok (some noRecords) ∧
      (noRecords.header.flipped 38).recordsSize = some (behind.length + 2) ∧
      (readNext config 0 0 (.ofBytes (flipBit 38 (noRecords.write ++ behind)))).1 =
        .error (.headerCrcMismatch (noRecords.header.flipped 38).computedHeaderCrc
          { header := noRecords.header.flipped 38, records := [] }) := by
  intro config behind
  have intact : Intact config noRecords :=
    (BatchDraft.Fits.of_le (by decide) (Nat.zero_le _) (by decide)).intact
  have beyond : (noRecords.header.flipped 38).recordsSize = some (behind.length + 2) := by decide
  have enough : ¬ behind.length < bodyLimit config (noRecords.header.flipped 38) := by
    rw [bodyLimit, beyond]
    decide
  refine ⟨(readNext_eq_some_iff _).mpr ⟨intact, rfl, rfl, behind, ByteStream.delivered_ofBytes _⟩,
    beyond, ?_⟩
  have altered : (ByteStream.ofBytes (flipBit 38 (noRecords.write ++ behind))).delivered =
      flipBit 38 (noRecords.header.write ++ behind) := by
    rw [ByteStream.delivered_ofBytes, write, List.append_assoc]
    rfl
  rw [readNext_flipped intact.headerCrc intact.size (by decide) altered, if_neg enough]

end Batch
end PartitionLog
