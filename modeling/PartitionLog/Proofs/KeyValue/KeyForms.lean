import PartitionLog.Proofs.KeyValue.Surplus
import PartitionLog.Proofs.Sized

/-!
# Keys written and read again

A key of a kind and a group, or of a kind and a partition, comes back from its bytes. So does every
key that was read, one that was kept as bytes among them, and that happens to short bytes and
malformed partition names only: `Key.written_readAgain`.
-/
namespace PartitionLog.KeyValue

theorem KeyData.readOrRaw_eq_raw_iff {reader : Reader KeyData} {buffer bytes : Bytes}
    (structured : ∀ input bytes rest, reader.run input ≠ (.ok (.raw bytes), rest)) :
    readOrRaw reader buffer = .raw bytes ↔ reader.Fails buffer ∧ bytes = buffer := by
  unfold readOrRaw
  obtain ⟨data, rest, found⟩ | failed := reader.ok_or_fails buffer
  · have succeeds : ¬ reader.Fails buffer :=
      fun failed => Reader.fails_iff.mp failed ⟨data, rest, found⟩
    simp only [found, succeeds, false_and, iff_false]
    rintro rfl
    exact structured _ _ _ found
  · obtain ⟨e, rest, run⟩ := failed
    simp only [run, KeyData.raw.injEq, eq_comm (a := bytes), iff_and_self]
    exact fun _ => ⟨e, rest, run⟩

namespace KeyData

theorem run_readConsensus_ne_raw (input bytes rest : Bytes) :
    readConsensus.run input ≠ (.ok (.raw bytes), rest) := by
  intro found
  obtain ⟨tag, _, -, found⟩ := Reader.run_bind_eq_ok_iff.mp found
  obtain ⟨group, _, -, found⟩ := Reader.run_bind_eq_ok_iff.mp found
  cases found

theorem run_readStorage_ne_raw (input bytes rest : Bytes) :
    readStorage.run input ≠ (.ok (.raw bytes), rest) := by
  intro found
  obtain ⟨tag, _, -, found⟩ := Reader.run_bind_eq_ok_iff.mp found
  obtain ⟨ntp, _, -, found⟩ := Reader.run_bind_eq_ok_iff.mp found
  cases found

theorem hasWidth_readConsensus : readConsensus.HasWidth 9 :=
  Reader.HasWidth.i8.bind fun _ => Reader.HasWidth.i64.bind fun _ => .pure _

theorem fails_readStorage_iff {buffer : Bytes} :
    readStorage.Fails buffer ↔ buffer = [] ∨ Ntp.Malformed buffer.tail := by
  simp only [readStorage, Reader.fails_bind_iff, Reader.HasWidth.i8.fails_iff, Ntp.fails_read_iff,
    Reader.not_fails_pure, and_false, exists_false, or_false]
  cases buffer with
  | nil => simp
  | cons b buffer =>
    simp [Reader.run_i8_cons]

end KeyData

namespace Key

/-- A key with the byte of its space in front. -/
def ofBytes? : Bytes → Option Key
  | [] => none
  | tag :: buffer => some (decode (.ofTag tag.toInt8) buffer)

theorem ofBytes?_write {key : Key} (space : .ofTag key.space.tag = key.space)
    (again : decode key.space key.data.write = key) : ofBytes? key.write = some key := by
  have bytes : key.write = key.space.tag.toUInt8 :: key.data.write := by
    rw [write, Wire.i8_eq, List.singleton_append]
  rw [bytes, ofBytes?, Int8.toInt8_toUInt8, space, again]

theorem decode_written (space : KeySpace) (buffer : Bytes) :
    decode space (decode space buffer).data.write = decode space buffer := by
  let key : StoredKey := ⟨space, buffer⟩
  have again := key.decoded_trimmed
  rw [StoredKey.decoded, key.buffer_trimmed] at again
  exact again

theorem decode_consensus (kind : ConsensusKind) (group : Int64) :
    decode .consensus (KeyData.consensus kind group).write =
      consensus (.ofTag kind.tag) group := by
  simp only [decode, KeyData.readOrRaw, (KeyData.decodes_consensus kind group).run, consensus]

theorem decode_storage (kind : StorageKind) {ntp : Ntp} (ns : ntp.ns.utf8ByteSize < 2 ^ 31)
    (topic : ntp.topic.utf8ByteSize < 2 ^ 31) :
    decode .storage (KeyData.storage kind ntp).write = storage (.ofTag kind.tag) ntp := by
  simp only [decode, KeyData.readOrRaw, (KeyData.decodes_storage kind ns topic).run, storage]

/-- A second reading of a key finds what the first one did, whether that was its layout or not. -/
theorem written_readAgain :
    (∀ tag group, ofBytes? (consensus (.ofTag tag) group).write =
      some (consensus (.ofTag tag) group)) ∧
    (∀ tag (ntp : Ntp), ntp.ns.utf8ByteSize ≤ Int32.maxValue.toInt →
      ntp.topic.utf8ByteSize ≤ Int32.maxValue.toInt →
      ofBytes? (storage (.ofTag tag) ntp).write = some (storage (.ofTag tag) ntp)) ∧
    (∀ tag buffer, ofBytes? (decode (.ofTag tag) buffer).write =
      some (decode (.ofTag tag) buffer)) ∧
    (∀ buffer bytes, (decode .consensus buffer).data = .raw bytes ↔
      buffer.length < 9 ∧ bytes = buffer) ∧
    ∀ buffer bytes, (decode .storage buffer).data = .raw bytes ↔
      (buffer = [] ∨ Ntp.Malformed buffer.tail) ∧ bytes = buffer := by
  refine ⟨fun tag group => ?_, fun tag ntp ns topic => ?_, fun tag buffer => ?_,
    fun buffer bytes => ?_, fun buffer bytes => ?_⟩
  · have again := decode_consensus (.ofTag tag) group
    rw [ConsensusKind.tag_ofTag] at again
    exact ofBytes?_write rfl again
  · rw [Int32.toInt_maxValue] at ns topic
    have again : decode .storage (KeyData.storage (.ofTag tag) ntp).write =
        storage (.ofTag (StorageKind.ofTag tag).tag) ntp :=
      decode_storage (.ofTag tag) (by omega) (by omega)
    rw [StorageKind.tag_ofTag] at again
    exact ofBytes?_write rfl again
  · exact ofBytes?_write (congrArg KeySpace.ofTag (KeySpace.tag_ofTag tag))
      (decode_written (.ofTag tag) buffer)
  · rw [← KeyData.hasWidth_readConsensus.fails_iff]
    exact KeyData.readOrRaw_eq_raw_iff KeyData.run_readConsensus_ne_raw
  · rw [← KeyData.fails_readStorage_iff]
    exact KeyData.readOrRaw_eq_raw_iff KeyData.run_readStorage_ne_raw

/-- A name that is not UTF-8 or has a negative length leaves bytes, an unknown kind does not. -/
theorem written_readAgain_unknown :
    ofBytes? (storage (.unknown (-3)) ⟨"kafka", "é", -1⟩).write =
      some (storage (.unknown (-3)) ⟨"kafka", "é", -1⟩) ∧
    (decode .storage [0, 1, 0, 0, 0, 255]).data = .raw [0, 1, 0, 0, 0, 255] ∧
    (decode .storage [0, 255, 255, 255, 255]).data = .raw [0, 255, 255, 255, 255] ∧
    (decode .consensus [9, 1, 0, 0]).data = .raw [9, 1, 0, 0] := by
  obtain ⟨-, partition, -, short, malformed⟩ := written_readAgain
  have invalid : ¬ (ByteArray.mk [255].toArray).IsValidUTF8 := by decide +kernel
  have encoding : Reader.MalformedText [1, 0, 0, 0, 255] := .encoding [255] [] (by decide) invalid
  have negative : Reader.MalformedText [255, 255, 255, 255] :=
    .unsized (Reader.fails_sizedBytes_iff.mp ⟨.negativeLength (-1), [], by decide⟩)
  exact ⟨partition (-3) ⟨"kafka", "é", -1⟩ (by decide) (by decide),
    (malformed _ _).mpr ⟨.inr (.ns encoding), rfl⟩, (malformed _ _).mpr ⟨.inr (.ns negative), rfl⟩,
    (short _ _).mpr ⟨by decide, rfl⟩⟩

end Key
end PartitionLog.KeyValue
