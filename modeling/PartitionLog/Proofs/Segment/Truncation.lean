import PartitionLog.Proofs.Batch.Building
import PartitionLog.Proofs.Bytes.Damage
import PartitionLog.Proofs.Segment.Items

/-!
# Segments cut short

A segment that is cut anywhere gives the items of the whole one up to the cut: the batches that end
by it, and an error only where the whole segment ends with the same one (`items_cut`).
-/
namespace PartitionLog

def Batch.endsBy (cut : Nat) (batch : Batch) : Bool :=
  batch.filePosition + batch.write.length ≤ cut

namespace BatchCursor

def batches (items : List (Except BatchError Batch)) : List Batch :=
  items.filterMap Except.toOption

@[simp] theorem batches_nil : batches [] = [] := rfl

@[simp] theorem batches_ok (batch : Batch) (items : List (Except BatchError Batch)) :
    batches (.ok batch :: items) = batch :: batches items := rfl

@[simp] theorem batches_error (e : BatchError) (items : List (Except BatchError Batch)) :
    batches (.error e :: items) = batches items := rfl

theorem map_ok_batches (items : List (Except BatchError Batch)) (sound : ∀ e, .error e ∉ items) :
    (batches items).map .ok = items := by
  induction items with
  | nil => rfl
  | cons item items ih =>
    cases item with
    | error e => exact absurd List.mem_cons_self (sound e)
    | ok batch =>
      rw [batches_ok, List.map_cons, ih fun e member => sound e (List.mem_cons_of_mem _ member)]

variable {config : ReaderConfig} {stop : Option IoError} {index position : Nat} {held : Bytes}
  {items : List (Except BatchError Batch)}

theorem Reads.position_le (reads : Reads config stop index position held items) :
    ∀ batch ∈ batches items, position ≤ batch.filePosition := by
  induction reads with
  | ended ending => simp
  | failed failing => simp
  | found finding behind ih =>
    obtain ⟨_, _, positioned, _⟩ := Batch.outcome_eq_some_iff.mp finding
    intro batch member
    cases List.mem_cons.mp member with
    | inl first =>
      subst first
      exact Nat.le_of_eq positioned.symm
    | inr later => exact Nat.le_trans (Nat.le_add_right _ _) (ih batch later)

theorem Reads.intact (reads : Reads config stop index position held items) :
    ∀ batch ∈ batches items, Batch.Intact config batch := by
  induction reads with
  | ended ending => simp
  | failed failing => simp
  | found finding behind ih =>
    obtain ⟨intact, _⟩ := Batch.outcome_eq_some_iff.mp finding
    intro batch member
    cases List.mem_cons.mp member with
    | inl first => exact first ▸ intact
    | inr later => exact ih batch later

theorem Reads.getLast?_error (reads : Reads config stop index position held items) (e : BatchError)
    (member : .error e ∈ items) : items.getLast? = some (.error e) := by
  induction reads with
  | ended ending => cases member
  | failed failing =>
    rw [List.mem_singleton] at member
    rw [member]
    rfl
  | found finding behind ih =>
    cases List.mem_cons.mp member with
    | inl first => cases first
    | inr later => rw [List.getLast?_cons, ih later, Option.getD_some]

/-- A cut in front of a batch's end leaves no item there, for what remains of it is a torn tail. -/
theorem Reads.take (reads : Reads config stop index position held items) (count : Nat) :
    ∃ kept, Reads config none index position (held.take count) kept ∧ kept <+: items ∧
      batches kept = (batches items).filter (Batch.endsBy (position + count)) := by
  induction reads generalizing count with
  | ended ending =>
    refine ⟨[], .ended ?_, List.nil_prefix, rfl⟩
    cases Batch.outcome_take count with
    | inl none => exact none
    | inr same => exact same.trans ending
  | failed failing =>
    cases Batch.outcome_take count with
    | inl none => exact ⟨[], .ended none, List.nil_prefix, rfl⟩
    | inr same => exact ⟨_, .failed (same.trans failing), List.prefix_rfl, rfl⟩
  | @found index position held batch items finding behind ih =>
    obtain ⟨intact, placed, positioned, following, rfl⟩ := Batch.outcome_eq_some_iff.mp finding
    rw [List.drop_left] at behind ih
    by_cases whole : batch.write.length ≤ count
    · obtain ⟨kept, reads, isPrefix, same⟩ := ih (count - batch.write.length)
      have place : position + batch.write.length + (count - batch.write.length) =
          position + count := by omega
      have front : (batch.write ++ following).take count =
          batch.write ++ following.take (count - batch.write.length) := by
        rw [List.take_append, List.take_of_length_le whole]
      have ends : batch.endsBy (position + count) = true := by
        rw [Batch.endsBy, decide_eq_true_eq, positioned]
        omega
      refine ⟨.ok batch :: kept, ?_, (List.cons_prefix_cons).mpr ⟨rfl, isPrefix⟩, ?_⟩
      · rw [front]
        refine .found (Batch.outcome_eq_some_iff.mpr ⟨intact, placed, positioned, _, rfl⟩) ?_
        rw [List.drop_left]
        exact reads
      · rw [batches_ok, batches_ok, List.filter_cons_of_pos ends, same, place]
    · refine ⟨[], .ended ?_, List.nil_prefix, ?_⟩
      · exact Batch.outcome_take_of_lt count (Nat.lt_of_not_le whole) finding
      · symm
        apply List.filter_eq_nil_iff.mpr
        intro later member
        rw [Batch.endsBy, decide_eq_true_eq]
        cases List.mem_cons.mp member with
        | inl first =>
          subst first
          omega
        | inr rest =>
          have beyond := behind.position_le later rest
          omega

theorem items_cut {source stream : ByteStream} {cut : Nat}
    (kept : stream.delivered = source.delivered.take cut) (clean : stream.failure = none) :
    let whole := BatchCursor.items { config, stream := source }
    let short := BatchCursor.items { config, stream }
    short <+: whole ∧
      batches short = (batches whole).filter (Batch.endsBy cut) ∧
      (∀ e, .error e ∈ short → whole.getLast? = some (.error e)) ∧
      ((∀ e, .error e ∉ whole) →
        short = ((batches whole).filter (Batch.endsBy cut)).map .ok) := by
  intro whole short
  have all : Reads config source.failure 0 0 source.delivered whole :=
    reads_items { config, stream := source } rfl
  have ahead : Reads config none 0 0 (source.delivered.take cut) short := by
    rw [← kept, ← clean]
    exact reads_items { config, stream } rfl
  obtain ⟨front, reads, isPrefix, same⟩ := all.take cut
  rw [← ahead.unique reads] at isPrefix same
  rw [Nat.zero_add] at same
  refine ⟨isPrefix, same, fun e member => all.getLast?_error e (isPrefix.subset member), ?_⟩
  intro sound
  rw [← same, map_ok_batches]
  intro e member
  exact sound e (isPrefix.subset member)

set_option maxRecDepth 20000 in
/-- The cut stands inside the damaged records of a second batch. -/
theorem items_cut_damaged :
    let batch := (BatchDraft.oneValue 2).build
    let bytes := batch.write ++ Bytes.flipBit 500 batch.write
    let whole := BatchCursor.items { config := {}, stream := .ofBytes bytes }
    let short := BatchCursor.items { config := {}, stream := .ofBytes (bytes.take 135) }
    bytes.length = 140 ∧ whole.length = 2 ∧ batches whole = [batch] ∧
      short <+: whole ∧ batches short = [batch] := by
  intro batch bytes whole short
  have kept : (ByteStream.ofBytes (bytes.take 135)).delivered =
      (ByteStream.ofBytes bytes).delivered.take 135 := by
    rw [ByteStream.delivered_ofBytes, ByteStream.delivered_ofBytes]
  obtain ⟨isPrefix, same, _⟩ := @items_cut {} _ _ 135 kept (ByteStream.failure_ofBytes _)
  have ends : (batches whole).filter (Batch.endsBy 135) = [batch] := by decide +kernel
  exact ⟨by decide +kernel, by decide +kernel, by decide +kernel, isPrefix, same.trans ends⟩

end BatchCursor
end PartitionLog
