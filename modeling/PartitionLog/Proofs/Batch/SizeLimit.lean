import PartitionLog.Proofs.Batch.Building

/-!
# The size limit

The limit of a reader bounds the records of a batch, and what is read to find them: no more than
one byte past it. So a batch comes back up to a size of a header and the limit
(`readNext_sizeLimit`), and a body that is cut short ends the data unless more than the limit is
there (`readNext_shortBody`).
-/
namespace PartitionLog.Batch

variable {config : ReaderConfig} {index filePosition : Nat} {stop : Option IoError}
  {header : BatchHeader}

theorem bodyOutcome_of_oversized (size : Nat) (declared : header.recordsSize = some size)
    (oversized : config.maxBatchSize < size) (body : Bytes) :
    bodyOutcome config index filePosition header body stop =
      if body.length ≤ config.maxBatchSize then ended stop
      else if header.computedHeaderCrc ≠ header.headerCrc then
        .error (.headerCrcMismatch header.computedHeaderCrc
          { header, records := [], index, filePosition })
      else .error (.invalidBatchSize header.baseOffset header.batchSize) := by
  have limit : bodyLimit config header = config.maxBatchSize + 1 := by
    rw [bodyLimit, declared, Option.getD_some]
    omega
  rw [bodyOutcome, not_isZeroed size declared, if_neg (by decide), limit]
  by_cases within : body.length ≤ config.maxBatchSize
  · rw [if_pos within, if_pos (Nat.lt_succ_of_le within)]
  · rw [if_neg within, if_neg (by omega)]
    by_cases headerCrc : header.computedHeaderCrc = header.headerCrc
    · simp [accept, headerCrc, declared, oversized, Except.map]
    · simp [accept, headerCrc, Except.map]

theorem outcome_of_oversized {batch : Batch} {body : Bytes} (whole : Sealed batch)
    (oversized : config.maxBatchSize < batch.records.length)
    (beyond : config.maxBatchSize < body.length) :
    outcome config index filePosition (batch.header.write ++ body) stop =
      .error (.invalidBatchSize batch.header.baseOffset batch.header.batchSize) := by
  rw [outcome_write, bodyOutcome_of_oversized _ whole.size oversized,
    if_neg (Nat.not_le.mpr beyond), if_neg (not_not_intro whole.headerCrc)]

/-! ## Bodies that are cut short -/

theorem readNext_shortBody {stream : ByteStream} {body : Bytes}
    (held : stream.delivered = header.write ++ body)
    (torn : BatchHeader.size + body.length < header.batchSize.toInt) :
    (readNext config index filePosition stream).1 =
      if body.length ≤ config.maxBatchSize then ended stream.failure
      else if header.computedHeaderCrc ≠ header.headerCrc then
        .error (.headerCrcMismatch header.computedHeaderCrc
          { header, records := [], index, filePosition })
      else .error (.invalidBatchSize header.baseOffset header.batchSize) := by
  obtain ⟨size, declared, short⟩ : ∃ size, header.recordsSize = some size ∧ body.length < size := by
    have sane : ¬ header.batchSize.toInt < BatchHeader.size := by omega
    refine ⟨_, if_neg sane, ?_⟩
    omega
  rw [readNext_fst, held, outcome_write]
  by_cases oversized : config.maxBatchSize < size
  · exact bodyOutcome_of_oversized size declared oversized body
  · have limit := bodyLimit_le size declared (Nat.le_of_not_lt oversized)
    rw [bodyOutcome, not_isZeroed size declared, if_neg (by decide), limit, if_pos short,
      if_pos (by omega)]

set_option maxRecDepth 20000 in
theorem readNext_shortBody_atLimit :
    let batch := (BatchDraft.oneValue 80).build
    let stream := ByteStream.ofBytes (batch.header.write ++ batch.records.take 61)
    (BatchHeader.size + (batch.records.take 61).length < batch.header.batchSize.toInt) ∧
      (readNext { maxBatchSize := 61 } 0 0 stream).1 = .ok none := by
  intro batch stream
  have torn : BatchHeader.size + (batch.records.take 61).length < batch.header.batchSize.toInt := by
    decide
  have answer := @readNext_shortBody { maxBatchSize := 61 } 0 0 _ stream _
    (ByteStream.delivered_ofBytes _) torn
  rw [if_pos (by decide), ByteStream.failure_ofBytes] at answer
  exact ⟨torn, answer⟩

set_option maxRecDepth 20000 in
theorem readNext_shortBody_beyondLimit :
    let config : ReaderConfig := { maxBatchSize := 61 }
    let batch := (BatchDraft.oneValue 80).build
    let stream := ByteStream.ofBytes (batch.header.write ++ batch.records.take 62)
    config.validate = .ok () ∧
      BatchHeader.size + (batch.records.take 62).length < batch.header.batchSize.toInt ∧
      (readNext config 0 0 stream).1 = .error (.invalidBatchSize 7 150) := by
  intro config batch stream
  have whole : Sealed batch := BatchDraft.sealed_build _ (by decide)
  have lengths : BatchHeader.size + (batch.records.take 62).length < batch.header.batchSize.toInt ∧
      61 < batch.records.length ∧ 61 < (batch.records.take 62).length := by
    decide
  obtain ⟨torn, oversized, beyond⟩ := lengths
  refine ⟨rfl, torn, ?_⟩
  rw [readNext_fst, ByteStream.delivered_ofBytes]
  exact outcome_of_oversized whole oversized beyond

theorem outcome_torn {size : Nat} {body : Bytes} (declared : header.recordsSize = some size)
    (torn : body.length < size) (within : body.length ≤ config.maxBatchSize) :
    outcome config index filePosition (header.write ++ body) stop = ended stop := by
  have short : body.length < bodyLimit config header := by
    rw [bodyLimit, declared, Option.getD_some]
    omega
  rw [outcome_write, bodyOutcome, not_isZeroed size declared, if_neg (by decide), if_pos short]

/-! ## Batches that are there in full -/

theorem readNext_sizeLimit (config : ReaderConfig) (index filePosition : Nat)
    (stream : ByteStream) :
    (∀ batch, (readNext config index filePosition stream).1 = .ok (some batch) →
      BatchHeader.size ≤ batch.header.batchSize.toInt ∧
        batch.header.batchSize.toInt ≤ BatchHeader.size + config.maxBatchSize) ∧
      ∀ batch following, Sealed batch → stream.delivered = batch.write ++ following →
        (readNext config index filePosition stream).1 =
          if batch.header.batchSize.toInt ≤ BatchHeader.size + config.maxBatchSize then
            .ok (some { batch with index, filePosition })
          else .error (.invalidBatchSize batch.header.baseOffset batch.header.batchSize) := by
  constructor
  · intro batch found
    obtain ⟨intact, _⟩ := (readNext_eq_some_iff stream).mp found
    have within := intact.within
    rw [toInt_batchSize intact.size, length_write]
    omega
  · intro batch following whole held
    rw [toInt_batchSize whole.size, length_write, readNext_fst, held]
    by_cases within : batch.records.length ≤ config.maxBatchSize
    · rw [if_pos (by omega)]
      exact outcome_of_intact (whole.intact within)
    · have beyond : config.maxBatchSize < (batch.records ++ following).length := by
        rw [List.length_append]
        omega
      rw [if_neg (by omega), write, List.append_assoc]
      exact outcome_of_oversized whole (Nat.lt_of_not_le within) beyond

set_option maxRecDepth 20000 in
/-- The limit does not count the header, so a size above it comes back. -/
theorem readNext_sizeLimit_header :
    let config : ReaderConfig := { maxBatchSize := 61 }
    let batch := (BatchDraft.oneValue 2).build
    config.validate = .ok () ∧ config.maxBatchSize < batch.header.batchSize.toInt ∧
      (readNext config 0 0 (.ofBytes batch.write)).1 = .ok (some batch) := by
  intro config batch
  have fits : (BatchDraft.oneValue 2).Fits config :=
    .of_le (by decide) (Nat.le_refl 61) (by decide)
  have above : config.maxBatchSize < batch.header.batchSize.toInt := by decide
  refine ⟨rfl, above, ?_⟩
  rw [readNext_eq_some_iff]
  exact ⟨fits.intact, rfl, rfl, [], by rw [ByteStream.delivered_ofBytes, List.append_nil]⟩

end PartitionLog.Batch
