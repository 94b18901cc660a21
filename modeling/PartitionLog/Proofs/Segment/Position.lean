import PartitionLog.Proofs.Segment.RoundTrip
import PartitionLog.Proofs.Segment.Truncation

/-!
# Where a cursor stands

After any number of calls, the batches found are the bytes in front of the cursor's position,
without a gap and each where it says it is. A call that finds none is the last to change anything:
`position_after`.
-/
namespace PartitionLog.BatchCursor

/-- What the first calls give, apart from those that give nothing. -/
def yielded (cursor : BatchCursor) (calls : Nat) : List (Except BatchError Batch) :=
  (List.range calls).filterMap fun call => (cursor.after call).next.1

variable {config : ReaderConfig} {source : ByteStream} {cursor : BatchCursor} {found : List Batch}

/-! ## One call -/

theorem stopped_of_silent (silent : ∀ batch, cursor.next.1 ≠ some (.ok batch)) :
    cursor.next.2.done = true ∧ cursor.next.2.batchesRead = cursor.batchesRead ∧
      cursor.next.2.position = cursor.position ∧ cursor.next.2.config = cursor.config := by
  unfold next at *
  split
  · rename_i done
    exact ⟨done, rfl, rfl, rfl⟩
  · rename_i going
    rw [if_neg going] at silent
    split
    · rename_i batch stream answer
      rw [answer] at silent
      exact absurd rfl (silent batch)
    · exact ⟨rfl, rfl, rfl, rfl⟩
    · exact ⟨rfl, rfl, rfl, rfl⟩

theorem next_eq_found {batch : Batch} (call : cursor.next.1 = some (.ok batch)) :
    cursor.done = false ∧ Batch.Intact cursor.config batch ∧ batch.index = cursor.batchesRead ∧
      batch.filePosition = cursor.position ∧ ∃ stream,
        cursor.next.2 = cursor.past batch stream ∧
        cursor.stream.delivered = batch.write ++ stream.delivered := by
  cases done : cursor.done with
  | true =>
    rw [next_of_done done] at call
    cases call
  | false =>
    cases answer : Batch.outcome cursor.config cursor.batchesRead cursor.position
        cursor.stream.delivered cursor.stream.failure with
    | error e =>
      obtain ⟨rest, failed, -⟩ := next_of_failed done answer
      rw [failed] at call
      cases call
    | ok batch? =>
      cases batch? with
      | none =>
        obtain ⟨rest, ended, -⟩ := next_of_ended done answer
        rw [ended] at call
        cases call
      | some batch' =>
        obtain ⟨stream, gave, left, -⟩ := next_of_found done answer
        rw [gave] at call
        cases call
        obtain ⟨intact, placed, positioned, following, held⟩ := Batch.outcome_eq_some_iff.mp answer
        refine ⟨rfl, intact, placed, positioned, stream, by rw [gave], ?_⟩
        rw [left, held, List.drop_left]

/-! ## All calls so far -/

theorem after_succ (calls : Nat) (cursor : BatchCursor) :
    cursor.after (calls + 1) = (cursor.after calls).next.2 := by
  induction calls generalizing cursor with
  | zero => rfl
  | succ calls ih => exact ih cursor.next.2

theorem yielded_succ (calls : Nat) (cursor : BatchCursor) :
    cursor.yielded (calls + 1) = cursor.yielded calls ++ (cursor.after calls).next.1.toList := by
  rw [yielded, List.range_succ, List.filterMap_append]
  rfl

/-- The cursor has passed the batches found and nothing else. -/
structure Passed (config : ReaderConfig) (source : ByteStream) (found : List Batch)
    (cursor : BatchCursor) : Prop where
  configured : cursor.config = config
  counted : cursor.batchesRead = found.length
  position : cursor.position = (found.flatMap Batch.write).length
  front : found.flatMap Batch.write <+: source.delivered
  ahead : cursor.done = false →
    source.delivered = found.flatMap Batch.write ++ cursor.stream.delivered
  each : ∀ i batch, found[i]? = some batch → Batch.Intact config batch ∧ batch.index = i ∧
    batch.filePosition = ((found.take i).flatMap Batch.write).length

theorem Passed.start (config : ReaderConfig) (source : ByteStream) :
    Passed config source [] { config, stream := source } :=
  ⟨rfl, rfl, rfl, List.nil_prefix, fun _ => rfl, nofun⟩

theorem Passed.next (passed : Passed config source found cursor) :
    Passed config source (found ++ batches cursor.next.1.toList) cursor.next.2 := by
  by_cases silent : ∀ batch, cursor.next.1 ≠ some (.ok batch)
  · obtain ⟨done, counted, position, configured⟩ := stopped_of_silent silent
    have none : batches cursor.next.1.toList = [] := by
      cases call : cursor.next.1 with
      | none => rfl
      | some item =>
        cases item with
        | error e => rfl
        | ok batch => exact absurd call (silent batch)
    rw [none, List.append_nil]
    exact ⟨configured.trans passed.configured, counted.trans passed.counted,
      position.trans passed.position, passed.front, fun going => by simp [done] at going,
      passed.each⟩
  · obtain ⟨batch, call⟩ := not_forall_not.mp silent
    obtain ⟨going, intact, placed, positioned, stream, behind, held⟩ := next_eq_found call
    have listed : batches cursor.next.1.toList = [batch] := by
      rw [call]
      rfl
    have whole : source.delivered =
        (found ++ [batch]).flatMap Batch.write ++ stream.delivered := by
      rw [passed.ahead going, held, List.flatMap_append, List.flatMap_singleton, List.append_assoc]
    rw [listed, behind]
    refine ⟨passed.configured, ?_, ?_, ⟨_, whole.symm⟩, fun _ => whole, ?_⟩
    · change cursor.batchesRead + 1 = _
      rw [passed.counted, List.length_append, List.length_singleton]
    · change cursor.position + batch.write.length = _
      rw [passed.position, List.flatMap_append, List.flatMap_singleton, List.length_append]
    · intro i other there
      by_cases earlier : i < found.length
      · rw [List.getElem?_append_left earlier] at there
        rw [List.take_append_of_le_length (Nat.le_of_lt earlier)]
        exact passed.each i other there
      · obtain ⟨last, rfl⟩ := List.getElem?_eq_some_iff.mp there
        have last : i = found.length := by
          rw [List.length_append, List.length_singleton] at last
          omega
        subst last
        rw [List.getElem_concat_length rfl, List.take_left]
        exact ⟨passed.configured ▸ intact, placed.trans passed.counted,
          positioned.trans passed.position⟩

theorem passed_after (config : ReaderConfig) (source : ByteStream) (calls : Nat) :
    let start : BatchCursor := { config, stream := source }
    Passed config source (batches (start.yielded calls)) (start.after calls) := by
  intro start
  induction calls with
  | zero => exact .start config source
  | succ calls ih =>
    rw [yielded_succ, after_succ, batches, List.filterMap_append]
    exact ih.next

/-! ## Sizes -/

def declaredSize (batches : List Batch) : Int :=
  batches.foldr (fun batch size => batch.header.batchSize.toInt + size) 0

theorem declaredSize_of_intact {batches : List Batch}
    (intact : ∀ batch ∈ batches, Batch.Intact config batch) :
    declaredSize batches = (batches.flatMap Batch.write).length := by
  induction batches with
  | nil => rfl
  | cons batch batches ih =>
    rw [declaredSize, List.foldr_cons, ← declaredSize, List.flatMap_cons,
      List.length_append, Int.natCast_add,
      Batch.toInt_batchSize (intact batch List.mem_cons_self).size,
      ih fun later member => intact later (List.mem_cons_of_mem _ member)]

theorem Passed.intact (passed : Passed config source found cursor) :
    ∀ batch ∈ found, Batch.Intact config batch := by
  intro batch member
  obtain ⟨i, there⟩ := List.mem_iff_getElem?.mp member
  exact (passed.each i batch there).1

theorem position_after (config : ReaderConfig) (source : ByteStream) (calls : Nat) :
    let start : BatchCursor := { config, stream := source }
    let cursor := start.after calls
    let found := batches (start.yielded calls)
    (cursor.position ≤ source.delivered.length ∧
        found.flatMap Batch.write = source.delivered.take cursor.position) ∧
      cursor.batchesRead = found.length ∧
      (∀ (i : Nat) (batch : Batch), found[i]? = some batch →
        batch.index = i ∧
        batch.filePosition = declaredSize (found.take i) ∧
        batch.header.batchSize.toInt = BatchHeader.size + batch.records.length ∧
        batch.verify = .ok ()) ∧
      ((∀ batch, cursor.next.1 ≠ some (.ok batch)) → ∀ more,
        let later := cursor.next.2.after more
        later.next.1 = none ∧ later.batchesRead = cursor.batchesRead ∧
          later.position = cursor.position) := by
  intro start cursor found
  have passed : Passed config source found cursor := passed_after config source calls
  refine ⟨⟨?_, ?_⟩, passed.counted, ?_, ?_⟩
  · rw [passed.position]
    exact passed.front.length_le
  · rw [passed.position]
    exact List.prefix_iff_eq_take.mp passed.front
  · intro i batch there
    obtain ⟨intact, placed, positioned⟩ := passed.each i batch there
    have front : ∀ earlier ∈ found.take i, Batch.Intact config earlier :=
      fun earlier member => passed.intact earlier (List.mem_of_mem_take member)
    refine ⟨placed, ?_, ?_, intact.verify⟩
    · rw [positioned, declaredSize_of_intact front]
    · rw [Batch.toInt_batchSize intact.size, batch.length_write, Int.natCast_add]
  · intro silent more
    obtain ⟨done, counted, position, -⟩ := stopped_of_silent silent
    simp only [after_of_done more done, next_of_done done]
    exact ⟨trivial, counted, position⟩

/-- The second of two batches is torn. -/
theorem position_after_torn :
    let batch := (BatchDraft.oneValue 2).build
    let bytes := batch.write ++ batch.write.take 60
    let start : BatchCursor := { config := {}, stream := .ofBytes bytes }
    let cursor := start.after 1
    let later := cursor.next.2.after 3
    cursor.next.1 = none ∧
      (batches (start.yielded 1)).flatMap Batch.write = bytes.take cursor.position ∧
      later.next.1 = none ∧ later.batchesRead = 1 ∧ later.position = cursor.position := by
  intro batch bytes start cursor later
  have fits : (BatchDraft.oneValue 2).Fits {} :=
    .of_le (by decide) (Nat.le_refl _) (by decide)
  have intact : ∀ whole ∈ [batch], Batch.Intact {} whole := by simp [batch, fits.intact]
  have short : (batch.write.take 60).length < BatchHeader.size :=
    Nat.lt_of_le_of_lt (List.length_take_le _ _) (by decide)
  have reads := reads_written (.short short) 0 0 [batch] intact
  rw [List.flatMap_singleton, ← ByteStream.delivered_ofBytes (batch.write ++ _),
    ← ByteStream.failure_ofBytes (batch.write ++ _)] at reads
  have first : (start.after 0).next.1 = _ := next_after_of_reads 0 rfl reads
  have second : (start.after 1).next.1 = _ := next_after_of_reads 1 rfl reads
  have one : (start.yielded 1) = [.ok (batch.placed 0 0)] := by
    rw [yielded_succ, first]
    rfl
  obtain ⟨⟨-, front⟩, counted, -, last⟩ := position_after {} (.ofBytes bytes) 1
  have silent : ∀ whole, (start.after 1).next.1 ≠ some (.ok whole) := by
    rw [second]
    nofun
  obtain ⟨none, same, position⟩ := last silent 3
  rw [ByteStream.delivered_ofBytes] at front
  rw [one] at counted
  exact ⟨second, front, none, same.trans counted, position⟩

end PartitionLog.BatchCursor
