import PartitionLog.Proofs.Counts
import PartitionLog.Proofs.Except
import PartitionLog.Proofs.Forward

/-!
# Records one by one

A call of a record cursor gives its next item, and nothing once there are no more (`next_after`). The
items are records with at most one error behind them, and only an error keeps them from being as
many as were asked for (`ends_items_start`). Between any two calls the cursor divides its region in
what it has consumed and what it has not, and announces no fewer items than are to come. The records
of a batch are the same all at once, and so is the error: `calls_accounted`.
-/
namespace PartitionLog

/-! ## Items -/

/-- As many values as there should be, or fewer and the error in place of the next one. -/
inductive Ends {α : Type} (count : Nat) : List (Except DecodeError α) → Prop
  | complete (values : List α) (all : values.length = count) : Ends count (values.map .ok)
  | failed (values : List α) (e : DecodeError) (fewer : values.length < count) :
      Ends count (values.map .ok ++ [.error e])

theorem Ends.cons {α : Type} {count : Nat} {items : List (Except DecodeError α)} (value : α)
    (ends : Ends count items) : Ends (count + 1) (.ok value :: items) := by
  cases ends with
  | complete values all => exact .complete (value :: values) (congrArg (· + 1) all)
  | failed values e fewer => exact .failed (value :: values) e (Nat.succ_lt_succ fewer)

theorem Reader.ends_attempts {α : Type} (reader : Reader α) (count : Nat) (input : Bytes) :
    Ends count (reader.attempts count input) := by
  induction count generalizing input with
  | zero => exact .complete [] rfl
  | succ count ih =>
    rw [attempts]
    rcases reader.run input with ⟨e | value, rest⟩
    · exact .failed [] e (Nat.succ_pos count)
    · exact (ih rest).cons value

namespace Ends

variable {α : Type} {count : Nat} {items : List (Except DecodeError α)}

theorem mapM_eq_ok_iff (ends : Ends count items) {values : List α} :
    items.mapM id = .ok values ↔ items = values.map .ok := by
  constructor
  · intro all
    cases ends with
    | complete found _ =>
      rw [mapM_map_ok] at all
      rw [Except.ok.inj all]
    | failed found e _ =>
      rw [mapM_map_ok_error] at all
      cases all
  · rintro rfl
    exact mapM_map_ok values

theorem mapM_eq_error_iff (ends : Ends count items) {e : DecodeError} :
    items.mapM id = .error e ↔ items.getLast? = some (Except.error e) := by
  cases ends with
  | complete values _ =>
    rw [mapM_map_ok, List.getLast?_map]
    simp
  | failed values e' _ =>
    rw [mapM_map_ok_error, List.getLast?_concat]
    simp

end Ends

namespace RecordCursor

variable {cursor : RecordCursor}

/-! ## One call -/

/-- What a call can do: give nothing and change nothing, or read on and be closer to the end. -/
inductive Step (cursor : RecordCursor) : Option (Except DecodeError Record) × RecordCursor → Prop
  | ended (spent : cursor.bound = 0) : Step cursor (none, cursor)
  | found {record : Record} {rest : Bytes} (due : cursor.remaining ≠ 0)
      (going : cursor.failed = false) (reading : Record.read.run cursor.rest = (.ok record, rest)) :
      Step cursor (some (.ok record), { cursor with rest, remaining := cursor.remaining - 1 })
  | failed {e : DecodeError} {rest : Bytes} (due : cursor.remaining ≠ 0)
      (going : cursor.failed = false) (reading : Record.read.run cursor.rest = (.error e, rest)) :
      Step cursor
        (some (.error e), { cursor with rest, remaining := cursor.remaining - 1, failed := true })

theorem step_next (cursor : RecordCursor) : Step cursor cursor.next := by
  unfold next
  split_ifs with spent
  · refine .ended ?_
    rw [bound]
    split_ifs with failed
    · rfl
    · exact spent.resolve_right failed
  · obtain ⟨due, going⟩ := not_or.mp spent
    generalize reading : Record.read.run cursor.rest = taken
    obtain ⟨e | record, rest⟩ := taken
    · exact .failed due (Bool.eq_false_of_not_eq_true going) reading
    · exact .found due (Bool.eq_false_of_not_eq_true going) reading

namespace Step

variable {answer : Option (Except DecodeError Record) × RecordCursor}

theorem region_eq (step : Step cursor answer) : answer.2.region = cursor.region := by
  cases step <;> rfl

theorem rest_suffix (step : Step cursor answer) : answer.2.rest <:+ cursor.rest := by
  have forward := Record.forward_read cursor.rest
  cases step with
  | ended _ => exact List.suffix_rfl
  | found _ _ reading => rwa [reading] at forward
  | failed _ _ reading => rwa [reading] at forward

theorem bound_le (step : Step cursor answer) :
    answer.1.toList.length + answer.2.bound ≤ cursor.bound := by
  cases step with
  | ended _ => exact (Nat.zero_add _).le
  | found due going _ =>
    simp only [bound, going, Option.toList_some, List.length_singleton]
    exact (Nat.add_sub_cancel' (Nat.pos_of_ne_zero due)).le
  | failed due going _ =>
    simp only [bound, going, Option.toList_some, List.length_singleton]
    exact Nat.pos_of_ne_zero due

end Step

/-! ## Any number of calls -/

def after : Nat → RecordCursor → RecordCursor
  | 0, cursor => cursor
  | calls + 1, cursor => after calls cursor.next.2

/-- What the next calls give, apart from those that give nothing. -/
def yielded (cursor : RecordCursor) (calls : Nat) : List (Except DecodeError Record) :=
  (List.range calls).filterMap fun call => (cursor.after call).next.1

theorem after_add (calls more : Nat) (cursor : RecordCursor) :
    cursor.after (calls + more) = (cursor.after calls).after more := by
  induction calls generalizing cursor with
  | zero => rw [Nat.zero_add, after]
  | succ calls ih => rw [Nat.add_right_comm, after, ih, after]

theorem yielded_succ (cursor : RecordCursor) (calls : Nat) :
    cursor.yielded (calls + 1) = cursor.next.1.toList ++ cursor.next.2.yielded calls := by
  rw [yielded, List.range_succ_eq_map, List.filterMap_cons, List.filterMap_map]
  cases call : cursor.next.1 <;> simp [after, call, yielded, Function.comp_def]

theorem length_yielded_le (cursor : RecordCursor) (calls : Nat) :
    (cursor.yielded calls).length ≤ cursor.bound := by
  induction calls generalizing cursor with
  | zero => exact Nat.zero_le _
  | succ calls ih =>
    rw [yielded_succ, List.length_append]
    exact (Nat.add_le_add_left (ih cursor.next.2) _).trans cursor.step_next.bound_le

theorem region_after (calls : Nat) (cursor : RecordCursor) :
    (cursor.after calls).region = cursor.region := by
  induction calls generalizing cursor with
  | zero => rfl
  | succ calls ih => exact (ih cursor.next.2).trans cursor.step_next.region_eq

theorem rest_after_suffix (calls : Nat) (cursor : RecordCursor) :
    (cursor.after calls).rest <:+ cursor.rest := by
  induction calls generalizing cursor with
  | zero => exact List.suffix_rfl
  | succ calls ih => exact (ih cursor.next.2).trans cursor.step_next.rest_suffix

/-! ## The items of a cursor -/

theorem items_of_failed (region rest : Bytes) (remaining : Nat) :
    items ⟨region, rest, remaining, true⟩ = [] := rfl

theorem items_of_going (region rest : Bytes) (remaining : Nat) :
    items ⟨region, rest, remaining, false⟩ = Record.read.attempts remaining rest :=
  itemsWithin_eq region rest remaining

theorem ends_items_start (region : Bytes) (count : Nat) :
    Ends count (start region count).items := by
  rw [start, items_of_going]
  exact Record.read.ends_attempts count region

/-- A call takes the first item off. -/
theorem Step.getElem?_items {answer : Option (Except DecodeError Record) × RecordCursor}
    (step : Step cursor answer) :
    cursor.items[0]? = answer.1 ∧ ∀ i : Nat, cursor.items[i + 1]? = answer.2.items[i]? := by
  cases step with
  | ended spent =>
    have nothing : cursor.items = [] := by
      rw [items, spent, itemsWithin]
    simp [nothing]
  | found due going reading =>
    obtain ⟨region, input, remaining, _⟩ := cursor
    subst going
    obtain ⟨left, rfl⟩ := Nat.exists_eq_succ_of_ne_zero due
    rw [items_of_going, Reader.attempts, reading, items_of_going]
    exact ⟨rfl, fun _ => rfl⟩
  | failed due going reading =>
    obtain ⟨region, input, remaining, _⟩ := cursor
    subst going
    obtain ⟨left, rfl⟩ := Nat.exists_eq_succ_of_ne_zero due
    rw [items_of_going, Reader.attempts, reading, items_of_failed]
    exact ⟨rfl, fun _ => rfl⟩

theorem next_after (calls : Nat) (cursor : RecordCursor) :
    (cursor.after calls).next.1 = cursor.items[calls]? := by
  induction calls generalizing cursor with
  | zero => exact cursor.step_next.getElem?_items.1.symm
  | succ calls ih => rw [cursor.step_next.getElem?_items.2, after, ih]

/-! ## The region -/

theorem rest_eq_drop (ahead : cursor.rest <:+ cursor.region) :
    cursor.rest = cursor.region.drop cursor.consumed :=
  List.suffix_iff_eq_drop.mp ahead

theorem consumed_add_unconsumed (ahead : cursor.rest <:+ cursor.region) :
    cursor.consumed + cursor.unconsumed = cursor.region.length :=
  Nat.sub_add_cancel ahead.length_le

theorem consumed_le_after (more : Nat) (cursor : RecordCursor) :
    cursor.consumed ≤ (cursor.after more).consumed := by
  rw [consumed, consumed, region_after]
  exact Nat.sub_le_sub_left (rest_after_suffix more cursor).length_le _

end RecordCursor

/-! ## All records of a batch at once -/

namespace Batch

variable {config : ReaderConfig}

theorem decodeRecords_of_lenient (lenient : config.strictRecordAccounting = false)
    (batch : Batch) :
    batch.decodeRecords config =
      (batch.recordCursor.items.mapM id).mapError (.malformedRecord batch.header.baseOffset) := by
  rw [items_recordCursor, ← Reader.run_replicate_fst, decodeRecords]
  rcases (Reader.replicate Record.read batch.recordCount).run batch.records with ⟨_ | _, _⟩
  · rfl
  · exact if_neg (by simp [lenient])

end Batch

namespace RecordCursor

theorem calls_accounted (region : Bytes) (count : Nat) :
    let start := start region count
    (∀ calls,
      let cursor := start.after calls
      cursor.rest = region.drop cursor.consumed ∧
        cursor.consumed + cursor.unconsumed = region.length ∧
        (∀ more, cursor.consumed ≤ (start.after (calls + more)).consumed) ∧
        (∀ more, (cursor.yielded more).length ≤ cursor.bound) ∧
        cursor.next.1 = start.items[calls]?) ∧
    Ends count start.items ∧
    ∀ (batch : Batch) (config : ReaderConfig), config.strictRecordAccounting = false →
      (∀ records, batch.decodeRecords config = .ok records ↔
        batch.recordCursor.items = records.map .ok) ∧
      ∀ e, batch.decodeRecords config = .error e ↔
        ∃ cause, e = .malformedRecord batch.header.baseOffset cause ∧
          batch.recordCursor.items.getLast? = some (.error cause) := by
  intro start
  refine ⟨fun calls => ?_, ends_items_start region count, fun batch config lenient => ?_⟩
  · have same : (start.after calls).region = region := region_after calls start
    have ahead : (start.after calls).rest <:+ (start.after calls).region :=
      same ▸ rest_after_suffix calls start
    refine ⟨?_, ?_, fun more => ?_, (start.after calls).length_yielded_le, next_after calls start⟩
    · rw [rest_eq_drop ahead, same]
    · rw [consumed_add_unconsumed ahead, same]
    · rw [after_add]
      exact consumed_le_after more (start.after calls)
  · have eager := Batch.decodeRecords_of_lenient lenient batch
    have ends : Ends batch.recordCount batch.recordCursor.items :=
      ends_items_start batch.records batch.recordCount
    refine ⟨fun records => ?_, fun e => ?_⟩
    · rw [eager, mapError_eq_ok_iff, ends.mapM_eq_ok_iff]
    · rw [eager, mapError_eq_error_iff]
      simp only [ends.mapM_eq_error_iff, and_comm, eq_comm]

/-- The second of three records is cut. -/
def cut : Batch :=
  let whole : Record := .ofKeyValue 0 0 (some [7]) none
  { header := { recordCount := 3 }, records := whole.write ++ whole.write.take 3 }

theorem calls_accounted_cut :
    let cursor := cut.recordCursor.after 1
    cursor.bound = 2 ∧ cursor.consumed = 8 ∧ cursor.consumed + cursor.unconsumed = 11 ∧
      (∀ more, (cursor.yielded more).length ≤ 2) ∧
      cut.decodeRecords {} = .error (.malformedRecord 0 (.truncated 1 0)) ∧
      cut.recordCursor.items.getLast? = some (.error (.truncated 1 0)) ∧
      (cursor.after 1).next.1 = none := by
  intro cursor
  have bound : cursor.bound = 2 := by decide
  have refused : cut.decodeRecords {} = .error (.malformedRecord 0 (.truncated 1 0)) := by decide
  have lenient : ReaderConfig.strictRecordAccounting {} = false := rfl
  obtain ⟨states, -, eager⟩ := calls_accounted cut.records cut.recordCount
  obtain ⟨-, divided, -, few, -⟩ := states 1
  obtain ⟨-, -, -, -, last⟩ := states 2
  obtain ⟨-, failed⟩ := eager cut {} lenient
  obtain ⟨cause, same, final⟩ := (failed _).mp refused
  cases same
  exact ⟨bound, by decide, divided, bound ▸ few, refused, final, last⟩

end RecordCursor
end PartitionLog
