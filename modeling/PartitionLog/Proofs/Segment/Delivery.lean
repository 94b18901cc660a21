import PartitionLog.Proofs.Segment.RoundTrip

/-!
# Batches from a stream in pieces

However a stream cuts its bytes and whatever interrupts them, as long as it does not fail: reading a
batch gives the same answer and leaves the same bytes (`readNext_of_delivered_eq`), so two cursors
over the same bytes stay in step (`InStep.next`) and give the same items. `readNext_inPieces`
compares with the bytes in one piece.
-/
namespace PartitionLog

/-! ## One batch -/

namespace Batch

variable {config : ReaderConfig} {index filePosition : Nat} {header : BatchHeader}

theorem bodyLimit_eq (config : ReaderConfig) (header : BatchHeader) :
    bodyLimit config header =
      min (header.batchSize.toInt - BatchHeader.size).toNat (config.maxBatchSize + 1) := by
  rw [bodyLimit, BatchHeader.recordsSize]
  split
  · rw [Option.getD_none]
    omega
  · rw [Option.getD_some]

theorem readNext_contents {stream : ByteStream} (whole : stream.failure = none)
    (head : BatchHeader.ofBytes (stream.contents.take BatchHeader.size) = header) :
    (readNext config index filePosition stream).2.contents =
      stream.contents.drop (BatchHeader.size + bodyLimit config header) := by
  rw [← ByteStream.delivered_eq_contents whole] at head ⊢
  obtain ⟨left, stop⟩ := readNext_snd head (.inr whole)
  rw [← ByteStream.delivered_eq_contents (stop.trans whole), left]

theorem readNext_of_delivered_eq (config : ReaderConfig) (index filePosition : Nat)
    {stream stream' : ByteStream} (held : stream'.delivered = stream.delivered)
    (whole : stream.failure = none) (whole' : stream'.failure = none) :
    let pieces := readNext config index filePosition stream
    let pieces' := readNext config index filePosition stream'
    pieces'.1 = pieces.1 ∧ pieces'.2.delivered = pieces.2.delivered ∧
      pieces.2.failure = none ∧ pieces'.2.failure = none := by
  obtain ⟨left, stop⟩ := readNext_snd rfl (.inr whole)
  obtain ⟨left', stop'⟩ := readNext_snd rfl (.inr whole')
  rw [held, ← left] at left'
  refine ⟨?_, left', stop.trans whole, stop'.trans whole'⟩
  rw [readNext_fst, readNext_fst, held, whole, whole']

end Batch

/-! ## All batches -/

namespace BatchCursor

/-- Two cursors at the same place, over streams that have the same bytes left. -/
structure InStep (cursor cursor' : BatchCursor) : Prop where
  config : cursor'.config = cursor.config
  batchesRead : cursor'.batchesRead = cursor.batchesRead
  position : cursor'.position = cursor.position
  done : cursor'.done = cursor.done
  delivered : cursor'.stream.delivered = cursor.stream.delivered
  whole : cursor.stream.failure = none
  whole' : cursor'.stream.failure = none

namespace InStep

variable {cursor cursor' : BatchCursor}

theorem next (inStep : InStep cursor cursor') :
    cursor'.next.1 = cursor.next.1 ∧ InStep cursor.next.2 cursor'.next.2 := by
  obtain ⟨config, stream, index, position, done⟩ := cursor
  obtain ⟨config', stream', index', position', done'⟩ := cursor'
  obtain ⟨configured, counted, placed, stopped, held, whole, whole'⟩ := inStep
  simp only at configured counted placed stopped held whole whole'
  subst configured counted placed stopped
  cases done' with
  | true =>
    rw [next_of_done rfl, next_of_done rfl]
    exact ⟨rfl, rfl, rfl, rfl, rfl, held, whole, whole'⟩
  | false =>
    obtain ⟨answer, left, stop, stop'⟩ :=
      Batch.readNext_of_delivered_eq config' index' position' held whole whole'
    simp only [BatchCursor.next, Bool.false_eq_true, if_false]
    generalize Batch.readNext config' index' position' stream = taken at *
    generalize Batch.readNext config' index' position' stream' = taken' at *
    obtain ⟨result, rest⟩ := taken
    obtain ⟨result', rest'⟩ := taken'
    simp only at answer
    subst answer
    rcases result' with e | _ | batch
    all_goals exact ⟨rfl, rfl, rfl, rfl, rfl, left, stop, stop'⟩

theorem after (inStep : InStep cursor cursor') (calls : Nat) :
    InStep (cursor.after calls) (cursor'.after calls) := by
  induction calls generalizing cursor cursor' with
  | zero => exact inStep
  | succ calls ih => exact ih inStep.next.2

theorem itemsWithin (inStep : InStep cursor cursor') (fuel : Nat) :
    cursor'.itemsWithin fuel = cursor.itemsWithin fuel := by
  induction fuel generalizing cursor cursor' with
  | zero => rfl
  | succ fuel ih =>
    obtain ⟨same, behind⟩ := inStep.next
    simp only [BatchCursor.itemsWithin]
    generalize cursor.next = call at *
    generalize cursor'.next = call' at *
    obtain ⟨item, rest⟩ := call
    obtain ⟨item', rest'⟩ := call'
    simp only at same
    subst same
    cases item' with
    | none => rfl
    | some item => exact congrArg (item :: ·) (ih behind)

theorem items (inStep : InStep cursor cursor') : cursor'.items = cursor.items := by
  have contents : cursor'.stream.contents = cursor.stream.contents := by
    rw [← ByteStream.delivered_eq_contents inStep.whole,
      ← ByteStream.delivered_eq_contents inStep.whole', inStep.delivered]
  rw [BatchCursor.items, contents, inStep.itemsWithin, ← BatchCursor.items]

end InStep
end BatchCursor

/-! ## Pieces and the whole -/

open ByteStream in
theorem Batch.readNext_inPieces {stream : ByteStream} (unfailing : ∀ cause, .failed cause ∉ stream)
    (config : ReaderConfig) (index filePosition : Nat) :
    let bytes := stream.contents
    let header := BatchHeader.ofBytes (bytes.take BatchHeader.size)
    let pieces := readNext config index filePosition stream
    let whole := readNext config index filePosition (.ofBytes bytes)
    let cursor : BatchCursor := { config, stream }
    let cursor' : BatchCursor := { config, stream := .ofBytes bytes }
    pieces.1 = whole.1 ∧
      (∃ taken, bytes = taken ++ pieces.2.contents ∧ bytes = taken ++ whole.2.contents ∧
        taken.length ≤ BatchHeader.size +
          min (header.batchSize.toInt - BatchHeader.size).toNat (config.maxBatchSize + 1)) ∧
      cursor.items = cursor'.items ∧
      ∀ calls,
        (cursor.after calls).next.1 = (cursor'.after calls).next.1 ∧
          (cursor.after calls).batchesRead = (cursor'.after calls).batchesRead ∧
          (cursor.after calls).position = (cursor'.after calls).position := by
  intro bytes header pieces whole cursor cursor'
  have none : stream.failure = none := failure_eq_none_iff.mpr unfailing
  have held : stream.delivered = bytes := delivered_eq_contents none
  have inStep : BatchCursor.InStep cursor' cursor :=
    ⟨rfl, rfl, rfl, rfl, held.trans (delivered_ofBytes bytes).symm, failure_ofBytes bytes, none⟩
  obtain ⟨answer, left, stop, stop'⟩ :=
    readNext_of_delivered_eq config index filePosition inStep.delivered inStep.whole none
  have behind : pieces.2.contents = bytes.drop (BatchHeader.size + bodyLimit config header) :=
    readNext_contents none rfl
  have same : whole.2.contents = pieces.2.contents := by
    rw [← delivered_eq_contents stop, ← delivered_eq_contents stop']
    exact left.symm
  refine ⟨answer, ⟨bytes.take (BatchHeader.size + bodyLimit config header), ?_, ?_, ?_⟩,
    inStep.items, fun calls => ?_⟩
  · rw [behind, List.take_append_drop]
  · rw [same, behind, List.take_append_drop]
  · rw [← bodyLimit_eq]
    exact List.length_take_le _ _
  · have later := inStep.after calls
    exact ⟨later.next.1, later.batchesRead, later.position⟩

/-- Two pieces of a batch, the first of which ends inside the header. -/
theorem Batch.readNext_inPieces_interrupted :
    let batch := (BatchDraft.oneValue 2).build
    let stream : ByteStream := .interrupted :: ByteStream.ofBytes (batch.write.take 30) ++
      .interrupted :: .interrupted :: ByteStream.ofBytes (batch.write.drop 30)
    (∀ cause, .failed cause ∉ stream) ∧ stream.contents = batch.write ∧
      (readNext {} 0 0 stream).1 = .ok (some batch) ∧
      BatchCursor.items { config := {}, stream } = [.ok batch] := by
  intro batch stream
  have unfailing : ∀ cause, .failed cause ∉ stream := ByteStream.failure_eq_none_iff.mp rfl
  have contents : stream.contents = batch.write := by
    rw [← List.take_append_drop 30 batch.write, ← ByteStream.contents_ofBytes (List.take _ _)]
    rfl
  have fits : (BatchDraft.oneValue 2).Fits {} := .of_le (by decide) (Nat.le_refl _) (by decide)
  have intact : ∀ whole ∈ [batch], Batch.Intact {} whole := by simp [batch, fits.intact]
  have ended : Tail {} [] := .short (by decide)
  have written := BatchCursor.items_of_written intact (.ended (ended.outcome _ _))
  rw [List.flatMap_singleton, List.append_nil] at written
  obtain ⟨answer, -, items, -⟩ := readNext_inPieces unfailing {} 0 0
  rw [contents] at answer items
  refine ⟨unfailing, contents, answer.trans ?_, items.trans written⟩
  rw [readNext_eq_some_iff]
  exact ⟨fits.intact, rfl, rfl, [], by rw [ByteStream.delivered_ofBytes, List.append_nil]⟩

end PartitionLog
