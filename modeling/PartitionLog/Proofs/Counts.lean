import PartitionLog.Batch.Basic
import PartitionLog.KeyValue.Value
import PartitionLog.Proofs.SelfDelimiting
import PartitionLog.Proofs.Width

/-!
# Counts and the bytes behind them

A count in the data says how many elements to read, up to numbers that no data could back. Each kind
of element takes some bytes at least (`Element.takesAtLeast`), so the bytes bound a loop whatever
its count is (`TakesAtLeast.bounded`), and with it the reader that the loop is a part of
(`Loop.bounded`). The records of a batch are such a loop, read at once or one by one.
-/
namespace PartitionLog
namespace Reader

variable {α β γ : Type} {reader : Reader α} {next : α → Reader β} {least least' : Nat}

/-! ## The fewest bytes -/

/-- What it reads is made of so many bytes or more. With none it is a reader that does not go
back. -/
def TakesAtLeast (reader : Reader α) (least : Nat) : Prop :=
  ∀ input value rest, reader.run input = (.ok value, rest) → least + rest.length ≤ input.length

theorem HasWidth.takesAtLeast {width : Nat} (whole : reader.HasWidth width) :
    reader.TakesAtLeast width :=
  fun _ _ _ found => (whole.length_eq found).ge

theorem SelfDelimiting.takesAtLeast (whole : reader.SelfDelimiting) : reader.TakesAtLeast 0 := by
  intro input value rest found
  obtain ⟨taken, rfl, -⟩ := whole _ _ _ found
  rw [List.length_append]
  omega

theorem SelfDelimiting.decodes {input : Bytes} {value : α} (whole : reader.SelfDelimiting)
    (found : reader.run input = (.ok value, [])) : reader.Decodes input value := by
  obtain ⟨taken, rfl, decodes, -⟩ := whole _ _ _ found
  rwa [List.append_nil]

namespace TakesAtLeast

theorem pure (value : α) : (Pure.pure value : Reader α).TakesAtLeast 0 :=
  (HasWidth.pure value).takesAtLeast

theorem bind (first : reader.TakesAtLeast least) (rest : ∀ value, (next value).TakesAtLeast least') :
    (reader >>= next).TakesAtLeast (least + least') := by
  intro input result behind found
  obtain ⟨value, middle, taken, found⟩ := run_bind_eq_ok_iff.mp found
  have front := first _ _ _ taken
  have back := rest value _ _ _ found
  omega

theorem followed (first : reader.TakesAtLeast least) (rest : ∀ value, (next value).TakesAtLeast 0) :
    (reader >>= next).TakesAtLeast least :=
  first.bind rest

theorem mono (whole : reader.TakesAtLeast least) (fewer : least' ≤ least) :
    reader.TakesAtLeast least' := by
  intro input value rest found
  have taken := whole _ _ _ found
  omega

theorem replicate (each : reader.TakesAtLeast least) (count : Nat) :
    (replicate reader count).TakesAtLeast (count * least) := by
  induction count with
  | zero => exact (pure []).mono (by omega)
  | succ count ih =>
    have all := each.bind fun value => ih.bind fun values => pure (value :: values)
    exact all.mono (by rw [Nat.succ_mul]; omega)

theorem varint : Reader.varint.TakesAtLeast 1 := by
  intro input v rest found
  obtain ⟨gs, whole, -, rfl, -⟩ := run_varint_eq_ok_iff.mp found
  have positive := whole.length_pos
  rw [List.length_append]
  omega

theorem nullableBytes : Reader.nullableBytes.TakesAtLeast 1 := by
  refine varint.followed fun length => ?_
  split
  · exact pure none
  · exact ((SelfDelimiting.take _).map some).takesAtLeast

theorem size : Reader.size.TakesAtLeast 4 := by
  refine HasWidth.i32.takesAtLeast.followed fun length => ?_
  split
  · exact (SelfDelimiting.fail _).takesAtLeast
  · exact pure _

theorem sizedBytes : Reader.sizedBytes.TakesAtLeast 4 :=
  size.followed fun n => (SelfDelimiting.take n).takesAtLeast

theorem vector (each : reader.TakesAtLeast least) : (vector reader).TakesAtLeast 4 :=
  size.followed fun count => (each.replicate count).mono (Nat.zero_le _)

end TakesAtLeast

/-! ## Loops over a count -/

/-- The reads of a loop over a count, with what each gave. The first that fails ends the loop. -/
def attempts (reader : Reader α) : Nat → Bytes → List (Except DecodeError α)
  | 0, _ => []
  | count + 1, input =>
    match reader.run input with
    | (.ok value, rest) => .ok value :: reader.attempts count rest
    | (.error e, _) => [.error e]

theorem run_replicate_fst (reader : Reader α) (count : Nat) (input : Bytes) :
    ((replicate reader count).run input).1 = (reader.attempts count input).mapM id := by
  induction count generalizing input with
  | zero => rfl
  | succ count ih =>
    rw [replicate, attempts, run_bind]
    rcases reader.run input with ⟨e | value, rest⟩
    · rfl
    · dsimp only
      rw [List.mapM_cons, ← ih, run_bind]
      rcases (replicate reader count).run rest with ⟨e | values, behind⟩ <;> rfl

/-- What `input` allows of a loop, whatever the count is. -/
structure Bounded (reader : Reader α) (least count : Nat) (input : Bytes) : Prop where
  taken {values : List α} {rest : Bytes} :
    (replicate reader count).run input = (.ok values, rest) →
      count * least + rest.length ≤ input.length
  attempts_le : (reader.attempts count input).length ≤ input.length / least + 1
  fails : input.length / least < count → (replicate reader count).Fails input

theorem TakesAtLeast.attempts_le (each : reader.TakesAtLeast least) (positive : 0 < least)
    (count : Nat) (input : Bytes) :
    (reader.attempts count input).length ≤ input.length / least + 1 := by
  induction count generalizing input with
  | zero => exact Nat.zero_le _
  | succ count ih =>
    rw [attempts]
    obtain ⟨value, rest, found⟩ | ⟨e, rest, failed⟩ := reader.ok_or_fails input
    -- A read that succeeds leaves room for one read less.
    · have less : rest.length / least + 1 ≤ input.length / least := by
        rw [← Nat.add_div_right _ positive]
        refine Nat.div_le_div_right ?_
        rw [Nat.add_comm]
        exact each _ _ _ found
      rw [found, List.length_cons]
      exact Nat.succ_le_succ ((ih rest).trans less)
    · rw [failed]
      exact Nat.succ_le_succ (Nat.zero_le _)

theorem TakesAtLeast.bounded (each : reader.TakesAtLeast least) (positive : 0 < least)
    (count : Nat) (input : Bytes) : reader.Bounded least count input where
  taken found := each.replicate count _ _ _ found
  attempts_le := each.attempts_le positive count input
  fails tooMany := by
    obtain ⟨values, rest, found⟩ | failed := (Reader.replicate reader count).ok_or_fails input
    · have taken := each.replicate count _ _ _ found
      have room : count ≤ input.length / least :=
        (Nat.le_div_iff_mul_le positive).mpr (by omega)
      omega
    · exact failed

theorem Decodes.replicate_zeros {value : α} (each : reader.Decodes (List.replicate least 0) value)
    (count : Nat) :
    (Reader.replicate reader count).Decodes (List.replicate (count * least) 0)
      (List.replicate count value) := by
  induction count with
  | zero =>
    rw [Nat.zero_mul]
    exact fun _ => rfl
  | succ count ih =>
    refine .of_eq ?_ (each.bind (ih.bind_pure (value :: ·)))
    rw [List.replicate_append_replicate, Nat.succ_mul, Nat.add_comm]

/-- Fields, one of which is a count, and the elements. -/
def counted (front : Reader γ) (count : γ → Nat) (element : Reader α) (finish : γ → List α → β) :
    Reader β := do
  let fields ← front
  finish fields <$> replicate element (count fields)

theorem run_counted {front : Reader γ} {fields : γ} {input behind : Bytes} (count : γ → Nat)
    (element : Reader α) (finish : γ → List α → β)
    (found : front.run input = (.ok fields, behind)) :
    (counted front count element finish).run input =
      (finish fields <$> replicate element (count fields)).run behind :=
  run_bind_ok found

end Reader

/-! ## Kinds of elements -/

open Reader (TakesAtLeast HasWidth)
open KeyValue (SnapshotBatch)

theorem RecordHeader.takesAtLeast_read : read.TakesAtLeast 2 :=
  TakesAtLeast.nullableBytes.bind fun _ => TakesAtLeast.nullableBytes.bind fun _ => .pure _

theorem Record.takesAtLeast_read : read.TakesAtLeast 7 :=
  TakesAtLeast.varint.bind fun _ => HasWidth.i8.takesAtLeast.bind fun _ =>
    TakesAtLeast.varint.bind fun _ => TakesAtLeast.varint.bind fun _ =>
      TakesAtLeast.nullableBytes.bind fun _ => TakesAtLeast.nullableBytes.bind fun _ =>
        TakesAtLeast.varint.followed fun _ =>
          ((RecordHeader.takesAtLeast_read.replicate _).mono (Nat.zero_le _)).followed fun _ =>
            .pure _

namespace KeyValue

theorem SnapshotBatch.takesAtLeast_readBytes : readBytes.TakesAtLeast 8 :=
  HasWidth.i32.takesAtLeast.bind fun _ => .sizedBytes

theorem SnapshotBatch.takesAtLeast_readRecordHeader : readRecordHeader.TakesAtLeast 16 :=
  takesAtLeast_readBytes.bind fun _ => takesAtLeast_readBytes.bind fun _ => .pure _

theorem SnapshotBatch.takesAtLeast_readRecord : readRecord.TakesAtLeast 37 :=
  HasWidth.u32.takesAtLeast.bind fun _ => HasWidth.i8.takesAtLeast.bind fun _ =>
    HasWidth.i64.takesAtLeast.bind fun _ => HasWidth.i32.takesAtLeast.bind fun _ =>
      takesAtLeast_readBytes.bind fun _ => takesAtLeast_readBytes.bind fun _ =>
        (TakesAtLeast.vector takesAtLeast_readRecordHeader).bind fun _ => .pure _

theorem Value.takesAtLeast_readConfigEntry {config : Reader Json} (onward : config.TakesAtLeast 0) :
    (readConfigEntry config).TakesAtLeast 8 :=
  HasWidth.i64.takesAtLeast.followed fun _ => onward.followed fun _ => .pure _

end KeyValue

/-- What is read in loops, and the fewest bytes of each. -/
inductive Element (config : Reader Json) : {α : Type} → Reader α → Nat → Prop
  | record : Element config Record.read 7
  | recordHeader : Element config RecordHeader.read 2
  | snapshotRecord : Element config SnapshotBatch.readRecord 37
  | snapshotRecordHeader : Element config SnapshotBatch.readRecordHeader 16
  | vnode : Element config Vnode.read 12
  | configEntry : Element config (KeyValue.Value.readConfigEntry config) 8

namespace Element

variable {α : Type} {config : Reader Json} {element : Reader α} {least : Nat}

theorem takesAtLeast (kind : Element config element least) (onward : config.TakesAtLeast 0) :
    element.TakesAtLeast least := by
  cases kind with
  | record => exact Record.takesAtLeast_read
  | recordHeader => exact RecordHeader.takesAtLeast_read
  | snapshotRecord => exact SnapshotBatch.takesAtLeast_readRecord
  | snapshotRecordHeader => exact SnapshotBatch.takesAtLeast_readRecordHeader
  | vnode => exact Vnode.hasWidth_read.takesAtLeast
  | configEntry => exact KeyValue.Value.takesAtLeast_readConfigEntry onward

theorem positive (kind : Element config element least) : 0 < least := by
  cases kind <;> decide

theorem bounded (kind : Element config element least) (onward : config.TakesAtLeast 0)
    (count : Nat) (input : Bytes) : element.Bounded least count input :=
  (kind.takesAtLeast onward).bounded kind.positive count input

/-- So many bytes are enough, where a configuration is none. -/
theorem exists_decodes_zeros (kind : Element config element least)
    (idle : ∃ value, config.Decodes [] value) :
    ∃ value, element.Decodes (List.replicate least 0) value := by
  cases kind with
  | record =>
    exact ⟨⟨0, 0, 0, 0, none, none, []⟩, Record.selfDelimiting_read.decodes (by decide)⟩
  | recordHeader => exact ⟨⟨[], none⟩, RecordHeader.selfDelimiting_read.decodes (by decide)⟩
  | snapshotRecord =>
    exact ⟨⟨0, 0, 0, 0, some [], some [], []⟩,
      SnapshotBatch.selfDelimiting_readRecord.decodes (by decide)⟩
  | snapshotRecordHeader =>
    exact ⟨⟨[], some []⟩, SnapshotBatch.selfDelimiting_readRecordHeader.decodes (by decide)⟩
  | vnode => exact ⟨⟨0, 0⟩, Vnode.selfDelimiting_read.decodes (by decide)⟩
  | configEntry =>
    obtain ⟨value, nothing⟩ := idle
    exact ⟨(0, value), (Reader.Decodes.i64 0).bind (nothing.bind_pure (Prod.mk 0))⟩

end Element

/-! ## Where the counts stand -/

/-- The fields in front of the headers, without any headers, and how many there should be. -/
def Record.readFront : Reader (Record × Int64) := do
  let length ← Reader.varint
  let attributes ← Reader.i8
  let timestampDelta ← Reader.varint
  let offsetDelta ← Reader.varint
  let key ← Reader.nullableBytes
  let value ← Reader.nullableBytes
  let count ← Reader.varint
  pure ({ length, attributes, timestampDelta, offsetDelta, key, value, headers := [] }, count)

/-- The fields in front of the records, without any records. -/
def KeyValue.SnapshotBatch.readFront : Reader SnapshotBatch := do
  let header ← BatchHeader.read
  let term ← Reader.i64
  let compressed ← Reader.i8
  pure { header, term, compressed, records := [] }

/-- A reader with a loop in it: what it reads up to the count, the count and the elements. -/
inductive Loop : {α β γ : Type} → Reader β → Reader γ → (γ → Nat) → Reader α → Prop
  | recordHeaders : Loop Record.read Record.readFront (·.2.toInt.toNat) RecordHeader.read
  | snapshotRecords : Loop SnapshotBatch.read SnapshotBatch.readFront
      (·.header.recordCount.toInt.toNat) SnapshotBatch.readRecord
  | vector {α : Type} (element : Reader α) : Loop (Reader.vector element) Reader.size id element
  | configMap (config : Reader Json) : Loop (KeyValue.Value.readConfigMap config) Reader.u64
      UInt64.toNat (KeyValue.Value.readConfigEntry config)

namespace Loop

variable {α β γ : Type} {config : Reader Json} {whole : Reader β} {front : Reader γ}
  {count : γ → Nat} {element : Reader α} {least : Nat} {input behind : Bytes} {fields : γ}

theorem exists_counted (loop : Loop whole front count element) :
    ∃ finish, whole = Reader.counted front count element finish := by
  cases loop with
  | recordHeaders =>
    refine ⟨fun fields headers => { fields.1 with headers }, ?_⟩
    simp [Record.read, Reader.counted, Record.readFront]
  | snapshotRecords =>
    refine ⟨fun fields records => { fields with records }, ?_⟩
    simp [SnapshotBatch.read, Reader.counted, SnapshotBatch.readFront]
  | vector element =>
    refine ⟨fun _ values => values, ?_⟩
    simp [Reader.vector, Reader.counted]
  | configMap config =>
    refine ⟨fun _ entries => .configMap (.ofList entries), ?_⟩
    simp [KeyValue.Value.readConfigMap, Reader.counted]

theorem bounded (loop : Loop whole front count element) (kind : Element config element least)
    (onward : config.TakesAtLeast 0) (found : front.run input = (.ok fields, behind)) :
    (∀ value rest, whole.run input = (.ok value, rest) →
      count fields * least + rest.length ≤ behind.length) ∧
    (behind.length / least < count fields → whole.Fails input) := by
  obtain ⟨finish, rfl⟩ := loop.exists_counted
  have bound := kind.bounded onward (count fields) behind
  have same := Reader.run_counted count element finish found
  constructor
  · intro value rest decoded
    rw [same] at decoded
    obtain ⟨values, all, -⟩ := Reader.run_map_eq_ok_iff.mp decoded
    exact bound.taken all
  · intro tooMany
    obtain ⟨e, rest, failed⟩ := bound.fails tooMany
    exact ⟨e, rest, by rw [same, ← bind_pure_comp, Reader.run_bind_error failed]⟩

end Loop

/-! ## The records of a batch -/

theorem RecordCursor.itemsWithin_eq (region rest : Bytes) (count : Nat) :
    itemsWithin count ⟨region, rest, count, false⟩ = Record.read.attempts count rest := by
  induction count generalizing rest with
  | zero => rfl
  | succ count ih =>
    rw [itemsWithin, Reader.attempts, next, if_neg (by simp)]
    rcases Record.read.run rest with ⟨e | record, behind⟩
    -- The cursor is not at its end, but it has failed.
    · have nothing : itemsWithin count ⟨region, behind, count, true⟩ = [] := by
        cases count <;> simp [itemsWithin, next]
      exact congrArg (Except.error e :: ·) nothing
    · exact congrArg (Except.ok record :: ·) (ih behind)

namespace Batch

theorem items_recordCursor (batch : Batch) :
    batch.recordCursor.items = Record.read.attempts batch.recordCount batch.records :=
  RecordCursor.itemsWithin_eq batch.records batch.records batch.recordCount

theorem decodeRecords_of_fails {batch : Batch} (config : ReaderConfig)
    (failed : (Reader.replicate Record.read batch.recordCount).Fails batch.records) :
    ∃ e, batch.decodeRecords config = .error (.malformedRecord batch.header.baseOffset e) := by
  obtain ⟨e, rest, failed⟩ := failed
  exact ⟨e, by rw [decodeRecords, failed]⟩

end Batch

/-- No count is believed that the bytes behind it do not bear out. -/
theorem counts_bounded {config : Reader Json} (onward : config.TakesAtLeast 0) :
    (∀ {α : Type} {element : Reader α} {least : Nat}, Element config element least →
      (∀ count input, element.Bounded least count input ∧
        ((Reader.replicate element count).run input).1 =
          (element.attempts count input).mapM id) ∧
      ((∃ value, config.Decodes [] value) → ∀ count, ∃ values,
        (Reader.replicate element count).Decodes (List.replicate (count * least) 0) values)) ∧
    (∀ {α β γ : Type} {whole : Reader β} {front : Reader γ} {count : γ → Nat}
      {element : Reader α} {least : Nat},
      Loop whole front count element → Element config element least →
      ∀ input fields behind, front.run input = (.ok fields, behind) →
        (∀ value rest, whole.run input = (.ok value, rest) →
          count fields * least + rest.length ≤ behind.length) ∧
        (behind.length / least < count fields → whole.Fails input)) ∧
    ∀ batch : Batch,
      batch.recordCursor.items = Record.read.attempts batch.recordCount batch.records ∧
      (batch.records.length / 7 < batch.recordCount → ∀ reading, ∃ e,
        batch.decodeRecords reading = .error (.malformedRecord batch.header.baseOffset e)) := by
  refine ⟨?_, ?_, fun batch => ⟨batch.items_recordCursor, fun tooMany reading => ?_⟩⟩
  · intro α element least kind
    refine ⟨fun count input => ?_, fun idle count => ?_⟩
    · exact ⟨kind.bounded onward count input, element.run_replicate_fst count input⟩
    · obtain ⟨value, zeros⟩ := kind.exists_decodes_zeros idle
      exact ⟨List.replicate count value, zeros.replicate_zeros count⟩
  · intro α β γ whole front count element least loop kind input fields behind found
    exact loop.bounded kind onward found
  · have bound := Record.takesAtLeast_read.bounded (by decide) batch.recordCount batch.records
    exact Batch.decodeRecords_of_fails reading (bound.fails tooMany)

theorem counts_bounded_greatest :
    let zeros : Bytes := List.replicate 20 0
    let batch : Batch := { header := { recordCount := Int32.maxValue }, records := zeros }
    (KeyValue.Value.readConfigMap RaftConfig.readJson).Fails
        (Wire.u64 (UInt64.ofNat (2 ^ 64 - 1)) ++ zeros) ∧
      (Record.read.attempts (2 ^ 31 - 1) zeros).length ≤ 3 ∧
      ∃ e, batch.decodeRecords {} = .error (.malformedRecord 0 e) := by
  intro zeros batch
  have onward : RaftConfig.readJson.TakesAtLeast 0 :=
    (RaftConfig.selfDelimiting_read.map _).takesAtLeast
  obtain ⟨element, loop, records⟩ := counts_bounded onward
  obtain ⟨-, configMap⟩ := loop (.configMap RaftConfig.readJson) .configEntry
    (Wire.u64 (UInt64.ofNat (2 ^ 64 - 1)) ++ zeros) _ zeros (Reader.Decodes.u64 _ _)
  obtain ⟨bound, -⟩ := (element .record).1 (2 ^ 31 - 1) zeros
  obtain ⟨-, refused⟩ := records batch
  exact ⟨configMap (by decide), bound.attempts_le.trans (by decide), refused (by decide) {}⟩

end PartitionLog
