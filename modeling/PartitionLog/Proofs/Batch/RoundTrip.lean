import PartitionLog.Proofs.Batch.Records

/-!
# Batches read back

A built batch is found in front of any data, takes as many bytes as its header says, and holds the
records it was built from: `readNext_build`.
-/
namespace PartitionLog.BatchDraft

theorem readNext_build {config : ReaderConfig} {draft : BatchDraft} (fits : draft.Fits config)
    {stream : ByteStream} {following : Bytes}
    (held : stream.delivered = draft.build.write ++ following) (index filePosition : Nat)
    (accounting : ReaderConfig) :
    draft.build.verify = .ok () ∧
      ∃ batch rest, Batch.readNext config index filePosition stream = (.ok (some batch), rest) ∧
        batch = { draft.build with index, filePosition } ∧
        rest.delivered = following ∧ rest.failure = stream.failure ∧
        (stream.delivered.length : Int) - rest.delivered.length = batch.header.batchSize.toInt ∧
        batch.decodeRecords accounting = .ok (draft.records.map Record.asWritten) := by
  have intact := fits.intact
  have placed : (draft.build.placed index filePosition).Intact config := intact.placed
  obtain ⟨rest, found, left, stop⟩ := Batch.readNext_of_intact placed rfl rfl held
  refine ⟨intact.verify, _, rest, found, rfl, left, stop, ?_, ?_⟩
  · have size := Batch.toInt_batchSize intact.size
    change _ = draft.build.header.batchSize.toInt
    rw [held, left, size, List.length_append]
    omega
  · exact draft.decodeRecords_build accounting fits.representable

/-- Records with nothing in the places where something may be, for examples. -/
def mixed : BatchDraft where
  baseOffset := -3
  batchType := 1
  firstTimestamp := 9
  producerEpoch := 4
  records := [
    { length := 99, attributes := -1, timestampDelta := -300, offsetDelta := Int64.minValue,
      key := some [], value := none, headers := [⟨[], some []⟩, ⟨[1], some [2, 3]⟩, ⟨[4], none⟩] },
    { length := 0, attributes := 0, timestampDelta := 0, offsetDelta := 1, key := some [5],
      value := some [], headers := [] }]

theorem readNext_build_mixed :
    let stream := ByteStream.ofBytes (mixed.build.write ++ [6, 7])
    mixed.Fits {} ∧ stream.delivered = mixed.build.write ++ [6, 7] ∧
      ∃ batch rest, Batch.readNext {} 2 80 stream = (.ok (some batch), rest) ∧
        rest.delivered = [6, 7] ∧
        batch.decodeRecords { strictRecordAccounting := true } = .ok [
          { length := 26, attributes := -1, timestampDelta := -300, offsetDelta := Int64.minValue,
            key := none, value := none,
            headers := [⟨[], none⟩, ⟨[1], some [2, 3]⟩, ⟨[4], none⟩] },
          { length := 7, attributes := 0, timestampDelta := 0, offsetDelta := 1, key := some [5],
            value := none, headers := [] }] := by
  intro stream
  have fits : mixed.Fits {} := ⟨by decide, by decide⟩
  have held : stream.delivered = mixed.build.write ++ [6, 7] := ByteStream.delivered_ofBytes _
  obtain ⟨-, batch, rest, found, -, left, -, -, records⟩ :=
    readNext_build fits held 2 80 { strictRecordAccounting := true }
  refine ⟨fits, held, batch, rest, found, left, records.trans (congrArg Except.ok ?_)⟩
  decide

end PartitionLog.BatchDraft
