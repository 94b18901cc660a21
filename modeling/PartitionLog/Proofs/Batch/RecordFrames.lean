import Mathlib.Data.List.Forall2
import PartitionLog.Proofs.Batch.RoundTrip
import PartitionLog.Proofs.SelfDelimiting

/-!
# Records and their lengths

A record is read field by field. The length in front of it is kept as it stands and has no say in
where the record ends, so the records of a batch may fill their region and still have lengths that
are not true (`decodeRecords_untrue`). Who goes by the lengths finds the records that the fields
have if and only if all lengths are true: `decodeRecords_framed`.
-/
namespace PartitionLog
open Reader

/-! ## One record, by its fields and by its length -/

namespace Record

/-- What follows the length. -/
def readBody (length : Int64) : Reader Record := do
  let attributes ← Reader.i8
  let timestampDelta ← Reader.varint
  let offsetDelta ← Reader.varint
  let key ← Reader.nullableBytes
  let value ← Reader.nullableBytes
  let count ← Reader.varint
  let headers ← Reader.replicate RecordHeader.read count.toInt.toNat
  pure { length, attributes, timestampDelta, offsetDelta, key, value, headers }

theorem read_eq : read = Reader.varint >>= readBody := rfl

theorem readBody_eq (length : Int64) :
    readBody length = (fun r => { r with length }) <$> readBody 0 := by
  simp [readBody]

theorem selfDelimiting_readBody (length : Int64) : (readBody length).SelfDelimiting :=
  .bind .i8 fun _ => .bind .varint fun _ => .bind .varint fun _ => .bind .nullableBytes fun _ =>
    .bind .nullableBytes fun _ => .bind .varint fun _ =>
      .bind (.replicate RecordHeader.selfDelimiting_read _) fun _ => .pure _

/-- The bytes that the length speaks of, whatever they are. -/
def skip : Reader Bytes := do
  let length ← Reader.varint
  if length.toInt < 0 then Reader.fail (.negativeLength length.toInt)
  else Reader.take length.toInt.toNat

end Record

/-- The bytes of a record, divided where its length ends. -/
structure RecordFrame where
  lengthBytes : Bytes
  body : Bytes
  deriving DecidableEq, Repr

namespace RecordFrame

def bytes (frame : RecordFrame) : Bytes := frame.lengthBytes ++ frame.body

/-- The fields are the record's under any length. -/
structure Holds (frame : RecordFrame) (r : Record) : Prop where
  length : Reader.varint.Decodes frame.lengthBytes r.length
  fields : ∀ length, (Record.readBody length).Decodes frame.body { r with length }

def Sized (frame : RecordFrame) (r : Record) : Prop := r.length.toInt = frame.body.length

variable {frame : RecordFrame} {frames : List RecordFrame} {r : Record} {records : List Record}
  {input rest behind : Bytes}

theorem Holds.decodes (held : frame.Holds r) : Record.read.Decodes frame.bytes r :=
  held.length.bind (held.fields r.length)

theorem exists_holds (found : Record.read.run input = (.ok r, rest)) :
    ∃ frame : RecordFrame, input = frame.bytes ++ rest ∧ frame.Holds r := by
  rw [Record.read_eq] at found
  obtain ⟨length, behind, first, later⟩ := run_bind_eq_ok_iff.mp found
  obtain ⟨lengthBytes, rfl, decodes, -⟩ := SelfDelimiting.varint _ _ _ first
  rw [Record.readBody_eq] at later
  obtain ⟨r, others, rfl⟩ := run_map_eq_ok_iff.mp later
  obtain ⟨body, rfl, fields, -⟩ := Record.selfDelimiting_readBody 0 _ _ _ others
  refine ⟨⟨lengthBytes, body⟩, (List.append_assoc ..).symm, decodes, fun length => ?_⟩
  rw [Record.readBody_eq]
  exact fields.map fun r => { r with length }

theorem exists_frames {count : Nat}
    (found : (replicate Record.read count).run input = (.ok records, rest)) :
    ∃ frames : List RecordFrame, frames.length = count ∧
      input = frames.flatMap bytes ++ rest ∧ List.Forall₂ Holds frames records := by
  induction count generalizing input records with
  | zero =>
    cases found
    exact ⟨[], rfl, rfl, .nil⟩
  | succ count ih =>
    obtain ⟨r, behind, first, later⟩ := run_bind_eq_ok_iff.mp found
    obtain ⟨records, middle, others, done⟩ := run_bind_eq_ok_iff.mp later
    cases done
    obtain ⟨frame, rfl, held⟩ := exists_holds first
    obtain ⟨frames, counted, rfl, all⟩ := ih others
    refine ⟨frame :: frames, congrArg (· + 1) counted, ?_, .cons held all⟩
    rw [List.flatMap_cons, List.append_assoc]

/-! ## Going by the lengths -/

theorem Holds.run_skip_iff (held : frame.Holds r) :
    Record.skip.run (frame.bytes ++ rest) = (.ok frame.body, behind) ↔
      frame.Sized r ∧ behind = rest := by
  rw [bytes, List.append_assoc, Record.skip, run_bind_ok (held.length _), Sized]
  split
  · rename_i negative
    constructor
    · intro failed
      cases failed
    · rintro ⟨sized, -⟩
      omega
  · rw [run_take_eq_ok_iff, List.append_cancel_left_eq]
    constructor
    · rintro ⟨sized, rfl⟩
      exact ⟨by omega, rfl⟩
    · rintro ⟨sized, rfl⟩
      exact ⟨by omega, rfl⟩

theorem run_replicate_skip_iff (held : List.Forall₂ Holds frames records) :
    (replicate Record.skip frames.length).run (frames.flatMap bytes) =
        (.ok (frames.map body), []) ↔
      List.Forall₂ Sized frames records := by
  induction held with
  | nil => exact ⟨fun _ => .nil, fun _ => rfl⟩
  | @cons frame r frames records first others ih =>
    rw [List.forall₂_cons, ← ih, List.flatMap_cons]
    constructor
    · intro found
      obtain ⟨body, behind, skipped, later⟩ := run_bind_eq_ok_iff.mp found
      obtain ⟨bodies, rest, found, done⟩ := run_bind_eq_ok_iff.mp later
      cases done
      obtain ⟨sized, rfl⟩ := first.run_skip_iff.mp skipped
      exact ⟨sized, found⟩
    · rintro ⟨sized, found⟩
      have skipped : Record.skip.run (frame.bytes ++ frames.flatMap bytes) = _ :=
        first.run_skip_iff.mpr ⟨sized, rfl⟩
      exact (run_bind_ok skipped).trans (run_bind_ok found)

/-! ## Records as they are written -/

theorem Holds.ne_nil (held : frame.Holds r) : frame.bytes ≠ [] := by
  intro empty
  have failed : Record.read.run [] = (.ok r, []) := empty ▸ held.decodes.run
  cases failed

theorem Holds.sized_of_write {written : Record} (held : frame.Holds r)
    (small : written.write.length < 2 ^ 63)
    (same : frame.bytes ++ rest = written.write ++ behind) : frame.Sized r ∧ rest = behind := by
  have found := held.decodes rest
  rw [same, written.decodes_write small behind] at found
  obtain ⟨rfl, rfl⟩ : written.asWritten = r ∧ behind = rest := by simpa using found
  have front := List.append_cancel_right same
  have number := held.length frame.body
  rw [← bytes, front, Record.write, Decodes.varint] at number
  have body : written.body = frame.body := congrArg Prod.snd number
  refine ⟨?_, rfl⟩
  rw [Record.write, List.length_append] at small
  rw [Sized, ← body]
  exact Int64.toInt_ofNat_of_lt (by omega)

theorem sized_of_written (held : List.Forall₂ Holds frames records) (written : List Record)
    (small : (written.flatMap Record.write).length < 2 ^ 63)
    (same : frames.flatMap bytes = written.flatMap Record.write) :
    List.Forall₂ Sized frames records := by
  induction held generalizing written with
  | nil => exact .nil
  | @cons frame r frames records first others ih =>
    -- Reading takes the first frame, and it takes the first written record: these are the same.
    cases written with
    | nil => exact absurd (List.append_eq_nil_iff.mp same).1 first.ne_nil
    | cons written others =>
      rw [List.flatMap_cons, List.length_append] at small
      obtain ⟨sized, rest⟩ := first.sized_of_write (by omega) same
      exact .cons sized (ih others (by omega) rest)

end RecordFrame

/-! ## The records of a batch -/

namespace Batch

theorem decodeRecords_eq_ok_iff {config : ReaderConfig} {batch : Batch} {records : List Record} :
    batch.decodeRecords config = .ok records ↔
      ∃ rest, (replicate Record.read batch.recordCount).run batch.records = (.ok records, rest) ∧
        (config.strictRecordAccounting = true → rest = []) := by
  unfold decodeRecords
  generalize (replicate Record.read batch.recordCount).run batch.records = answer
  obtain ⟨e | found, rest⟩ := answer
  · simp
  · by_cases left : config.strictRecordAccounting = true ∧ rest ≠ []
    · simp [left]
    · have whole (strict : config.strictRecordAccounting = true) : rest = [] :=
        not_not.mp fun more => left ⟨strict, more⟩
      simp only [if_neg left, Except.ok.injEq, Prod.mk.injEq]
      constructor
      · rintro rfl
        exact ⟨rest, ⟨rfl, rfl⟩, whole⟩
      · rintro ⟨_, ⟨same, -⟩, -⟩
        exact same

theorem decodeRecords_framed {config : ReaderConfig} {batch : Batch} {records : List Record}
    (strict : config.strictRecordAccounting = true)
    (decoded : batch.decodeRecords config = .ok records) :
    ∃ frames : List RecordFrame,
      batch.records = frames.flatMap RecordFrame.bytes ∧
      List.Forall₂ RecordFrame.Holds frames records ∧
      ((replicate Record.skip batch.recordCount).run batch.records =
          (.ok (frames.map RecordFrame.body), []) ↔
        List.Forall₂ RecordFrame.Sized frames records) ∧
      ∀ written : List Record, batch.records = written.flatMap Record.write →
        batch.records.length < 2 ^ 63 → List.Forall₂ RecordFrame.Sized frames records := by
  obtain ⟨rest, found, whole⟩ := decodeRecords_eq_ok_iff.mp decoded
  obtain ⟨frames, counted, filled, held⟩ := RecordFrame.exists_frames found
  rw [whole strict, List.append_nil] at filled
  refine ⟨frames, filled, held, ?_, fun written region small => ?_⟩
  · rw [filled, ← counted]
    exact RecordFrame.run_replicate_skip_iff held
  · rw [region] at small
    exact RecordFrame.sized_of_written held written small (filled.symm.trans region)

theorem decodeRecords_framed_mixed :
    let config : ReaderConfig := { strictRecordAccounting := true }
    let draft := BatchDraft.mixed
    draft.build.decodeRecords config = .ok (draft.records.map Record.asWritten) ∧
      ∃ frames : List RecordFrame, frames.length = 2 ∧
        draft.region = frames.flatMap RecordFrame.bytes ∧
        (replicate Record.skip draft.build.recordCount).run draft.region =
          (.ok (frames.map RecordFrame.body), []) := by
  intro config draft
  have decoded := draft.decodeRecords_build config (by decide)
  obtain ⟨frames, filled, held, skipped, sized⟩ := decodeRecords_framed rfl decoded
  exact ⟨decoded, frames, held.length_eq, filled, skipped.mpr (sized _ rfl (by decide))⟩

/-- A batch with true checksums and one record, of six bytes, that is said to have none. -/
def untrue : Batch :=
  .seal { ({ baseOffset := 7, batchType := 1 } : BatchDraft).unsealed with
    batchSize := 68, recordCount := 1 } [0, 0, 0, 0, 1, 1, 0]

theorem decodeRecords_untrue :
    untrue.verify = .ok () ∧
      ∃ record, untrue.decodeRecords { strictRecordAccounting := true } = .ok [record] ∧
        untrue.records = Wire.varint record.length ++ record.body ∧
        record.length.toInt ≠ record.body.length ∧
        (replicate Record.skip untrue.recordCount).run untrue.records =
          (.ok [[]], record.body) := by
  have sealed : Sealed untrue := sealed_seal (by decide)
  have intact : Intact {} untrue := sealed.intact (by decide)
  exact ⟨intact.verify, ⟨0, 0, 0, 0, none, none, []⟩, by decide⟩

end Batch
end PartitionLog
