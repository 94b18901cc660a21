import PartitionLog.KeyValue.Snapshot
import PartitionLog.Proofs.Canonical
import PartitionLog.Raft.Config

/-!
# Readers that know where they end

What follows the bytes that a reader takes has no part in its answer, and where they are cut short
it asks for more than there is, whatever field the cut is in. This holds of every field but the rest
of the input, and passes on from fields to optional fields, vectors and structures
(`structures_selfDelimiting`). So a truncation is always told from a malformed field.
-/
namespace PartitionLog
namespace Reader

variable {α β : Type} {reader : Reader α} {next : α → Reader β} {encoded later : Bytes} {value : α}

def Truncates (reader : Reader α) (encoded : Bytes) : Prop :=
  ∀ front, front <+: encoded → front ≠ encoded →
    ∃ needed available, (reader.run front).1 = .error (.truncated needed available) ∧
      available < needed

/-- What a reader takes decides its answer, whatever follows, and a part of it is too short. -/
def SelfDelimiting (reader : Reader α) : Prop :=
  ∀ input value rest, reader.run input = (.ok value, rest) →
    ∃ taken, input = taken ++ rest ∧ reader.Decodes taken value ∧ reader.Truncates taken

theorem Truncates.nil : reader.Truncates [] :=
  fun _ front short => absurd (List.prefix_nil.mp front) short

theorem Truncates.bind (whole : reader.Decodes encoded value) (first : reader.Truncates encoded)
    (rest : (next value).Truncates later) : (reader >>= next).Truncates (encoded ++ later) := by
  intro front isFront short
  by_cases reached : encoded <+: front
  · obtain ⟨front, rfl⟩ := reached
    rw [run_bind_ok (whole front)]
    refine rest front (List.prefix_append_right_inj encoded |>.mp isFront) ?_
    exact fun same => short (congrArg (encoded ++ ·) same)
  · have ordered := List.prefix_or_prefix_of_prefix isFront (List.prefix_append encoded later)
    have within : front <+: encoded := ordered.resolve_right reached
    have shorter : front ≠ encoded := fun same => reached (same ▸ List.prefix_rfl)
    obtain ⟨needed, available, failed, less⟩ := first front within shorter
    rw [run_bind_error (Prod.ext failed rfl)]
    exact ⟨needed, available, rfl, less⟩

namespace SelfDelimiting

theorem pure (value : α) : (Pure.pure value : Reader α).SelfDelimiting := by
  intro input _ rest found
  cases found
  exact ⟨[], rfl, fun _ => rfl, .nil⟩

theorem fail (e : DecodeError) : (fail e : Reader α).SelfDelimiting := by
  intro input value rest found
  cases found

theorem bind (first : reader.SelfDelimiting) (rest : ∀ value, (next value).SelfDelimiting) :
    (reader >>= next).SelfDelimiting := by
  intro input result behind found
  obtain ⟨value, middle, taken, taken'⟩ := run_bind_eq_ok_iff.mp found
  obtain ⟨front, rfl, decodes, truncates⟩ := first _ _ _ taken
  obtain ⟨back, rfl, decodes', truncates'⟩ := rest value _ _ _ taken'
  refine ⟨front ++ back, ?_, decodes.bind decodes', truncates.bind decodes truncates'⟩
  rw [List.append_assoc]

theorem map (f : α → β) (whole : reader.SelfDelimiting) : (f <$> reader).SelfDelimiting := by
  rw [← bind_pure_comp]
  exact whole.bind fun value => pure (f value)

theorem take (n : Nat) : (take n).SelfDelimiting := by
  intro input bs rest found
  obtain ⟨rfl, front⟩ := run_take_eq_ok_iff.mp found
  refine ⟨bs, front, .take bs, fun part isPart short => ?_⟩
  have less : part.length < bs.length :=
    Nat.lt_of_le_of_ne isPart.length_le fun same => short (isPart.eq_of_length same)
  rw [run_take, if_neg (Nat.not_le.mpr less)]
  exact ⟨bs.length, part.length, rfl, less⟩

/-! ## Fields -/

theorem fixed (width : Nat) : (fixed width).SelfDelimiting := (take width).map _

theorem u8 : Reader.u8.SelfDelimiting := (fixed 1).map _
theorem u16 : Reader.u16.SelfDelimiting := (fixed 2).map _
theorem u32 : Reader.u32.SelfDelimiting := (fixed 4).map _
theorem u64 : Reader.u64.SelfDelimiting := (fixed 8).map _
theorem i8 : Reader.i8.SelfDelimiting := u8.map _
theorem i16 : Reader.i16.SelfDelimiting := u16.map _
theorem i32 : Reader.i32.SelfDelimiting := u32.map _
theorem i64 : Reader.i64.SelfDelimiting := u64.map _
theorem bool : Reader.bool.SelfDelimiting := u8.map _

theorem varint : Reader.varint.SelfDelimiting := by
  intro input v rest found
  obtain ⟨gs, whole, room, rfl, rfl⟩ := run_varint_eq_ok_iff.mp found
  refine ⟨gs, rfl, fun following => ?_, fun front isFront short => ?_⟩
  · exact run_varint_eq_ok_iff.mpr ⟨gs, whole, room, rfl, rfl⟩
  -- Before the last group every byte says that another one follows.
  · have failed := whole.decodeUnsigned_front room isFront short
    refine ⟨front.length + 1, front.length, ?_, Nat.lt_succ_self _⟩
    rw [Varint.run_varint, failed]

theorem nullableBytes : Reader.nullableBytes.SelfDelimiting := by
  refine varint.bind fun length => ?_
  split
  · exact pure none
  · exact (take _).map some

theorem size : Reader.size.SelfDelimiting := by
  refine i32.bind fun length => ?_
  split
  · exact fail _
  · exact pure _

theorem sizedBytes : Reader.sizedBytes.SelfDelimiting := size.bind take

theorem text : Reader.text.SelfDelimiting := by
  refine sizedBytes.bind fun bs => ?_
  split
  · exact pure _
  · exact fail _

theorem optional (present : reader.SelfDelimiting) : (optional reader).SelfDelimiting := by
  refine bool.bind fun there => ?_
  split
  · exact present.map some
  · exact pure none

theorem replicate (each : reader.SelfDelimiting) (count : Nat) :
    (replicate reader count).SelfDelimiting := by
  induction count with
  | zero => exact pure []
  | succ count ih => exact each.bind fun value => ih.bind fun values => pure (value :: values)

theorem vector (each : reader.SelfDelimiting) : (vector reader).SelfDelimiting :=
  size.bind (replicate each)

end SelfDelimiting
end Reader

/-! ## Structures -/

open Reader.SelfDelimiting

theorem Ntp.selfDelimiting_read : Ntp.read.SelfDelimiting :=
  text.bind fun _ => text.bind fun _ => i32.bind fun _ => pure _

theorem BatchHeader.selfDelimiting_read : BatchHeader.read.SelfDelimiting :=
  u32.bind fun _ => i32.bind fun _ => i64.bind fun _ => i8.bind fun _ => u32.bind fun _ =>
    i16.bind fun _ => i32.bind fun _ => i64.bind fun _ => i64.bind fun _ => i64.bind fun _ =>
      i16.bind fun _ => i32.bind fun _ => i32.bind fun _ => pure _

theorem RecordHeader.selfDelimiting_read : RecordHeader.read.SelfDelimiting :=
  nullableBytes.bind fun _ => nullableBytes.bind fun _ => pure _

theorem Record.selfDelimiting_read : Record.read.SelfDelimiting :=
  varint.bind fun _ => i8.bind fun _ => varint.bind fun _ => varint.bind fun _ =>
    nullableBytes.bind fun _ => nullableBytes.bind fun _ => varint.bind fun _ =>
      (replicate RecordHeader.selfDelimiting_read _).bind fun _ => pure _

theorem Vnode.selfDelimiting_read : Vnode.read.SelfDelimiting :=
  i32.bind fun _ => i64.bind fun _ => pure _

theorem Endpoint.selfDelimiting_read : Endpoint.read.SelfDelimiting :=
  text.bind fun _ => text.bind fun _ => u16.bind fun _ => pure _

theorem Broker.selfDelimiting_readProperty : Broker.readProperty.SelfDelimiting :=
  text.bind fun _ => text.bind fun _ => pure _

theorem Broker.selfDelimiting_read : Broker.read.SelfDelimiting :=
  i32.bind fun _ => (vector Endpoint.selfDelimiting_read).bind fun _ => text.bind fun _ =>
    u16.bind fun _ => (optional text).bind fun _ => u32.bind fun _ => u32.bind fun _ =>
      u32.bind fun _ => (vector text).bind fun _ =>
        (vector selfDelimiting_readProperty).bind fun _ => pure _

theorem GroupNodes.selfDelimiting_read : GroupNodes.read.SelfDelimiting :=
  (vector Vnode.selfDelimiting_read).bind fun _ =>
    (vector Vnode.selfDelimiting_read).bind fun _ => pure _

theorem ConfigUpdate.selfDelimiting_read : ConfigUpdate.read.SelfDelimiting :=
  (vector Vnode.selfDelimiting_read).bind fun _ =>
    (vector Vnode.selfDelimiting_read).bind fun _ => pure _

theorem RaftConfig.selfDelimiting_read : RaftConfig.read.SelfDelimiting := by
  refine i8.bind fun version => (vector Broker.selfDelimiting_read).bind fun _ =>
    GroupNodes.selfDelimiting_read.bind fun _ =>
      (optional GroupNodes.selfDelimiting_read).bind fun _ => i64.bind fun _ => ?_
  split
  · exact (optional ConfigUpdate.selfDelimiting_read).bind fun _ => pure _
  · exact (pure none).bind fun _ => pure _

namespace KeyValue.SnapshotBatch

theorem selfDelimiting_readBytes : readBytes.SelfDelimiting := i32.bind fun _ => sizedBytes

theorem selfDelimiting_readRecordHeader : readRecordHeader.SelfDelimiting :=
  selfDelimiting_readBytes.bind fun _ => selfDelimiting_readBytes.bind fun _ => pure _

theorem selfDelimiting_readRecord : readRecord.SelfDelimiting :=
  u32.bind fun _ => i8.bind fun _ => i64.bind fun _ => i32.bind fun _ =>
    selfDelimiting_readBytes.bind fun _ => selfDelimiting_readBytes.bind fun _ =>
      (vector selfDelimiting_readRecordHeader).bind fun _ => pure _

theorem selfDelimiting_read : read.SelfDelimiting :=
  BatchHeader.selfDelimiting_read.bind fun _ => i64.bind fun _ => i8.bind fun _ =>
    (replicate selfDelimiting_readRecord _).bind fun _ => pure _

end KeyValue.SnapshotBatch

theorem structures_selfDelimiting :
    Record.read.SelfDelimiting ∧ BatchHeader.read.SelfDelimiting ∧ Ntp.read.SelfDelimiting ∧
      RaftConfig.read.SelfDelimiting ∧ KeyValue.SnapshotBatch.read.SelfDelimiting :=
  ⟨Record.selfDelimiting_read, BatchHeader.selfDelimiting_read, Ntp.selfDelimiting_read,
    RaftConfig.selfDelimiting_read, KeyValue.SnapshotBatch.selfDelimiting_read⟩

/-! ### One structure of each kind -/

/-- The value is read from these bytes with more behind them, and not without the last of them. -/
def Reader.Needs {α : Type} (reader : Reader α) (bytes : Bytes) (value : α) : Prop :=
  reader.run (bytes ++ [7]) = (.ok value, [7]) ∧
    ∃ needed available, (reader.run bytes.dropLast).1 = .error (.truncated needed available) ∧
      available < needed

theorem Reader.SelfDelimiting.needs {α : Type} {reader : Reader α} {bytes : Bytes} {value : α}
    (whole : reader.SelfDelimiting) (read : reader.run (bytes ++ [7]) = (.ok value, [7]))
    (some : bytes ≠ []) : reader.Needs bytes value := by
  obtain ⟨taken, split, -, truncates⟩ := whole _ _ _ read
  obtain rfl := List.append_cancel_right split
  refine ⟨read, truncates bytes.dropLast (List.dropLast_prefix bytes) fun same => ?_⟩
  have shorter := congrArg List.length same
  rw [List.length_dropLast] at shorter
  have positive : 0 < bytes.length := List.length_pos_iff.mpr some
  omega

namespace Samples

def record : Record :=
  .withHeaders (.ofKeyValue 2 (-1) (some [1]) none) [⟨[0x6b], some [2, 3]⟩, ⟨[], none⟩]

def header : BatchHeader := { baseOffset := 7, batchType := 1, attrs := 0x18, recordCount := 1 }

def ntp : Ntp := ⟨"kafka", "t", -1⟩

def config : RaftConfig where
  version := 4
  brokers := []
  current := { voters := [⟨1, 7⟩], learners := [] }
  previous := none
  revision := 9
  update := some { replicasToAdd := [⟨3, 0⟩], replicasToRemove := [] }

def batch : KeyValue.SnapshotBatch where
  header := header
  term := 2
  compressed := 0
  records := [.ofKeyValue 2 (-1) (some [1]) (some [])]

end Samples

theorem structures_selfDelimiting_samples :
    Record.read.Needs Samples.record.write Samples.record ∧
      BatchHeader.read.Needs Samples.header.write Samples.header ∧
      Ntp.read.Needs Samples.ntp.write Samples.ntp ∧
      RaftConfig.read.Needs Samples.config.write Samples.config ∧
      KeyValue.SnapshotBatch.read.Needs Samples.batch.write Samples.batch := by
  obtain ⟨record, header, ntp, config, batch⟩ := structures_selfDelimiting
  exact ⟨record.needs (by decide +kernel) (by decide), header.needs (by decide +kernel) (by decide),
    ntp.needs (by decide +kernel) (by decide), config.needs (by decide +kernel) (by decide),
    batch.needs (by decide +kernel) (by decide)⟩

end PartitionLog
