import PartitionLog.Proofs.Batch.Building
import PartitionLog.Proofs.Segment.Items

/-!
# Segments read back

Batches that were written one after another come back in this order, each with its place, and
nothing after them, whatever torn or blank tail the segment has: `next_after_written`.
-/
namespace PartitionLog

/-- What may stand behind the last batch of a segment: less than a header, space that was allocated
ahead, or a write that was torn. -/
inductive Tail (config : ReaderConfig) : Bytes → Prop
  | short {tail : Bytes} (short : tail.length < BatchHeader.size) : Tail config tail
  | blank {tail : Bytes} (zeros : List.replicate BatchHeader.size 0 <+: tail) : Tail config tail
  | torn {tail : Bytes} {draft : BatchDraft} (fits : draft.Fits config)
      (front : tail <+: draft.build.write) (proper : tail ≠ draft.build.write) : Tail config tail

theorem Tail.outcome {config : ReaderConfig} {tail : Bytes} (ending : Tail config tail)
    (index position : Nat) : Batch.outcome config index position tail none = .ok none := by
  cases ending with
  | short short =>
    rw [Batch.outcome, if_pos short]
    rfl
  | blank zeros =>
    obtain ⟨behind, rfl⟩ := zeros
    have zeroHeader : List.replicate BatchHeader.size 0 = BatchHeader.write {} := rfl
    rw [zeroHeader, Batch.outcome_write, Batch.bodyOutcome]
    rfl
  | @torn draft fits front proper =>
    have finding : Batch.outcome config index position draft.build.write none =
        .ok (some (draft.build.placed index position)) := by
      rw [← List.append_nil draft.build.write]
      exact Batch.outcome_of_intact fits.intact
    have less : tail.length < draft.build.write.length := by
      apply Nat.lt_of_le_of_ne front.length_le
      intro same
      exact proper (front.eq_of_length same)
    rw [List.prefix_iff_eq_take.mp front]
    refine Batch.outcome_take_of_lt tail.length ?_ finding
    exact less

namespace BatchCursor

def placedFrom : Nat → Nat → List Batch → List Batch
  | _, _, [] => []
  | index, position, batch :: batches =>
    batch.placed index position :: placedFrom (index + 1) (position + batch.write.length) batches

theorem getElem?_placedFrom (index position n : Nat) (batches : List Batch) :
    (placedFrom index position batches)[n]? = batches[n]?.map fun batch =>
      batch.placed (index + n)
        (position + ((batches.take n).map fun batch => batch.write.length).sum) := by
  induction batches generalizing index position n with
  | nil => rfl
  | cons batch batches ih =>
    cases n with
    | zero => rfl
    | succ n => simp [placedFrom, ih, Nat.add_assoc, Nat.add_comm 1 n]

theorem Reads.behind_written {config : ReaderConfig} {stop : Option IoError} {held : Bytes}
    {items : List (Except BatchError Batch)} {index position : Nat} (batches : List Batch)
    (intact : ∀ batch ∈ batches, Batch.Intact config batch)
    (behind : Reads config stop (index + batches.length)
      (position + (batches.flatMap Batch.write).length) held items) :
    Reads config stop index position (batches.flatMap Batch.write ++ held)
      ((placedFrom index position batches).map .ok ++ items) := by
  induction batches generalizing index position with
  | nil => exact behind
  | cons batch batches ih =>
    rw [List.length_cons, List.flatMap_cons, List.length_append, Nat.add_comm batches.length,
      ← Nat.add_assoc, ← Nat.add_assoc] at behind
    rw [List.flatMap_cons, List.append_assoc]
    refine .of_intact (intact batch List.mem_cons_self) ?_
    exact ih (fun later member => intact later (List.mem_cons_of_mem _ member)) behind

theorem items_of_written {config : ReaderConfig} {batches : List Batch} {tail : Bytes}
    {items : List (Except BatchError Batch)}
    (intact : ∀ batch ∈ batches, Batch.Intact config batch)
    (behind : Reads config none batches.length (batches.flatMap Batch.write).length tail items) :
    BatchCursor.items { config, stream := .ofBytes (batches.flatMap Batch.write ++ tail) } =
      (placedFrom 0 0 batches).map .ok ++ items := by
  rw [← Nat.zero_add batches.length, ← Nat.zero_add (batches.flatMap Batch.write).length] at behind
  exact (reads_ofBytes config _).unique (.behind_written batches intact behind)

theorem reads_written {config : ReaderConfig} {tail : Bytes} (ending : Tail config tail)
    (index position : Nat) (batches : List Batch)
    (intact : ∀ batch ∈ batches, Batch.Intact config batch) :
    Reads config none index position (batches.flatMap Batch.write ++ tail)
      ((placedFrom index position batches).map .ok) := by
  have reads : Reads config none index position _ _ :=
    .behind_written batches intact (.ended (ending.outcome _ _))
  rwa [List.append_nil] at reads

theorem next_after_written {config : ReaderConfig} {stream : ByteStream}
    {drafts : List BatchDraft} {tail : Bytes} (fit : ∀ draft ∈ drafts, draft.Fits config)
    (ending : Tail config tail)
    (written : stream.delivered = drafts.flatMap (fun draft => draft.build.write) ++ tail)
    (clean : stream.failure = none) (calls : Nat) :
    (after calls { config, stream }).next.1 = drafts[calls]?.map fun draft =>
      .ok { draft.build with
        index := calls
        filePosition :=
          ((drafts.take calls).map fun draft => draft.build.write.length).sum } := by
  have intact : ∀ batch ∈ drafts.map BatchDraft.build, Batch.Intact config batch := by
    intro batch member
    obtain ⟨draft, among, rfl⟩ := List.mem_map.mp member
    exact (fit draft among).intact
  have reads := reads_written ending 0 0 _ intact
  rw [List.flatMap_map, ← written, ← clean] at reads
  have answer : (after calls { config, stream }).next.1 = _ := next_after_of_reads calls rfl reads
  rw [answer, List.getElem?_map, getElem?_placedFrom, List.getElem?_map, ← List.map_take,
    List.map_map, Option.map_map, Option.map_map]
  simp [Function.comp_def, Batch.placed]

set_option maxRecDepth 20000 in
theorem next_after_written_torn :
    let first := BatchDraft.oneValue 2
    let second := BatchDraft.oneValue 80
    let bytes := first.build.write ++ second.build.write ++ first.build.write.take 69
    let cursor : BatchCursor := { config := { maxBatchSize := 89 }, stream := .ofBytes bytes }
    (cursor.after 0).next.1 = some (.ok first.build) ∧
      (cursor.after 1).next.1 = some (.ok { second.build with index := 1, filePosition := 70 }) ∧
      (cursor.after 2).next.1 = none ∧ (cursor.after 5).next.1 = none := by
  intro first second bytes cursor
  have fit : ∀ draft ∈ [first, second], draft.Fits { maxBatchSize := 89 } := by
    intro draft member
    have bounds : ∀ draft ∈ [first, second], draft.region.length ≤ 89 := by decide
    have small := bounds draft member
    exact ⟨small, by rw [Int32.toInt_maxValue, BatchHeader.size]; omega⟩
  have ending : Tail { maxBatchSize := 89 } (first.build.write.take 69) :=
    .torn (fit first List.mem_cons_self) (List.take_prefix _ _) (by decide +kernel)
  have written : (ByteStream.ofBytes bytes).delivered =
      [first, second].flatMap (fun draft => draft.build.write) ++ first.build.write.take 69 := by
    rw [ByteStream.delivered_ofBytes]
    simp [bytes]
  have answer := next_after_written fit ending written (ByteStream.failure_ofBytes _)
  have place : first.build.write.length = 70 := by decide
  refine ⟨answer 0, (answer 1).trans ?_, answer 2, answer 5⟩
  simp [place]

end BatchCursor
end PartitionLog
