import PartitionLog.Batch.Basic

/-!
# Readers go forward

What a reader leaves is an end of what it was given, even if it fails. So the records of a batch
never reach beyond their region, whatever its bytes and the record count are: `unread_suffix`.
-/
namespace PartitionLog

namespace Reader

variable {α β : Type} {reader : Reader α} {next : α → Reader β}

def Forward (reader : Reader α) : Prop := ∀ input, (reader.run input).2 <:+ input

namespace Forward

theorem pure (value : α) : (Pure.pure value : Reader α).Forward := fun _ => List.suffix_rfl

theorem bind (first : reader.Forward) (rest : ∀ value, (next value).Forward) :
    (reader >>= next).Forward := by
  intro input
  have behind := first input
  rw [run_bind]
  generalize reader.run input = taken at behind ⊢
  obtain ⟨result, left⟩ := taken
  cases result with
  | error e => exact behind
  | ok value => exact (rest value left).trans behind

theorem map (f : α → β) (forward : reader.Forward) : (f <$> reader).Forward := by
  rw [← bind_pure_comp]
  exact forward.bind fun value => pure (f value)

theorem take (n : Nat) : (take n).Forward := by
  intro input
  rw [run_take]
  split
  · exact List.drop_suffix n input
  · exact List.suffix_rfl

theorem i8 : Reader.i8.Forward := (((take 1).map _).map _).map _

theorem varint : Reader.varint.Forward := by
  intro input
  unfold run Reader.varint
  split
  · exact List.drop_suffix _ input
  · exact List.suffix_rfl

theorem nullableBytes : Reader.nullableBytes.Forward := by
  refine varint.bind fun length => ?_
  split
  · exact pure none
  · exact (take _).map some

theorem replicate (forward : reader.Forward) (count : Nat) :
    (replicate reader count).Forward := by
  induction count with
  | zero => exact pure []
  | succ count ih => exact forward.bind fun value => ih.bind fun values => pure (value :: values)

end Forward
end Reader

open Reader.Forward in
theorem RecordHeader.forward_read : RecordHeader.read.Forward :=
  nullableBytes.bind fun _ => nullableBytes.bind fun _ => pure _

open Reader.Forward in
theorem Record.forward_read : Record.read.Forward :=
  varint.bind fun _ => i8.bind fun _ => varint.bind fun _ => varint.bind fun _ =>
    nullableBytes.bind fun _ => nullableBytes.bind fun _ => varint.bind fun _ =>
      (replicate RecordHeader.forward_read _).bind fun _ => pure _

namespace Batch

/-- What the records leave of their region, or the first malformed one does. -/
def unread (batch : Batch) : Bytes :=
  ((Reader.replicate Record.read batch.recordCount).run batch.records).2

theorem unread_suffix (batch : Batch) : batch.unread <:+ batch.records :=
  Reader.Forward.replicate Record.forward_read batch.recordCount batch.records

end Batch
end PartitionLog
