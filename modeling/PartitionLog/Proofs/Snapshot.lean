import PartitionLog.Proofs.Width
import PartitionLog.Snapshot

/-!
# Snapshot files and their contents

A file is read if its header is there, the size in it is not negative and there are as many bytes
behind it, and the first of these that fails is the error (`Refused`). Files that are read and
snapshots whose header states the size of their metadata determine each other
(`ofBytes_eq_ok_iff`). A snapshot that was made is one of these, with the right checksums:
`verify_make`.
-/
namespace PartitionLog
open Reader (Decodes)

namespace SnapshotHeader

theorem decodes_write (h : SnapshotHeader) : read.Decodes h.write h := by
  refine .of_eq ?_ <| (Decodes.u32 h.headerCrc).bind <| (Decodes.u32 h.metadataCrc).bind <|
    (Decodes.i8 h.version).bind <| (Decodes.i32 h.metadataSize).bind_pure _
  simp only [write, checkedBytes, List.append_assoc]

theorem canonical_read : read.Canonical write := by
  have fields := Reader.Canonical.u32.pair <| Reader.Canonical.u32.pair <|
    Reader.Canonical.i8.pair Reader.Canonical.i32
  refine .of_eq ?_ (fields.map (f := fun x => ⟨x.1, x.2.1, x.2.2.1, x.2.2.2⟩) fun _ => ?_)
  · simp [read, Reader.pair]
  · simp only [write, checkedBytes, List.append_assoc]

theorem hasWidth_read : read.HasWidth size :=
  Reader.HasWidth.u32.bind fun _ => Reader.HasWidth.u32.bind fun _ =>
    Reader.HasWidth.i8.bind fun _ => Reader.HasWidth.i32.bind fun _ => .pure _

theorem exists_of_size_le {bytes : Bytes} (full : size ≤ bytes.length) :
    ∃ (h : SnapshotHeader) (body : Bytes), bytes = h.write ++ body := by
  obtain ⟨h, body, found⟩ | failed := read.ok_or_fails bytes
  · exact ⟨h, body, (canonical_read _ _ _ found).1⟩
  · exact absurd (hasWidth_read.fails_iff.mp failed) (Nat.not_lt.mpr full)

end SnapshotHeader

namespace Snapshot

/-- The size of the metadata as a file states it, in the last four bytes of its header. -/
def statedSize (bytes : Bytes) : Int32 :=
  (UInt32.ofNat (Bytes.ofLittleEndian ((bytes.drop 9).take 4))).toInt32

/-- What is wrong with a file, where each fault hides those behind it. -/
inductive Refused (bytes : Bytes) : SnapshotError → Prop
  | tooSmall (short : bytes.length < SnapshotHeader.size) :
      Refused bytes (.fileTooSmall bytes.length)
  | negative (full : SnapshotHeader.size ≤ bytes.length)
      (negative : (statedSize bytes).toInt < 0) :
      Refused bytes (.invalidMetadataSize (statedSize bytes))
  | truncated (full : SnapshotHeader.size ≤ bytes.length)
      (natural : 0 ≤ (statedSize bytes).toInt)
      (short : bytes.length < SnapshotHeader.size + (statedSize bytes).toInt) :
      Refused bytes (.malformed
        (.truncated (statedSize bytes).toInt.toNat (bytes.length - SnapshotHeader.size)))

/-! ## Reading -/

theorem statedSize_append (h : SnapshotHeader) (body : Bytes) :
    statedSize (h.write ++ body) = h.metadataSize := by
  have front : (Wire.u32 h.headerCrc ++ Wire.u32 h.metadataCrc ++ Wire.i8 h.version).length = 9 := by
    simp
  have fields : h.write ++ body =
      (Wire.u32 h.headerCrc ++ Wire.u32 h.metadataCrc ++ Wire.i8 h.version) ++
        (Wire.i32 h.metadataSize ++ body) := by
    simp only [SnapshotHeader.write, SnapshotHeader.checkedBytes, List.append_assoc]
  have value : Bytes.ofLittleEndian (Wire.i32 h.metadataSize) = h.metadataSize.toUInt32.toNat := by
    rw [Wire.i32, Wire.u32, Bytes.ofLittleEndian_littleEndian]
    exact Nat.mod_eq_of_lt h.metadataSize.toUInt32.toNat_lt
  rw [statedSize, fields, List.drop_left' front, List.take_left' (Wire.length_i32 _), value,
    UInt32.ofNat_toNat, Int32.toInt32_toUInt32]

theorem ofBytes_of_short {bytes : Bytes} (short : bytes.length < SnapshotHeader.size) :
    ofBytes bytes = .error (.fileTooSmall bytes.length) := by
  obtain ⟨e, rest, failed⟩ := SnapshotHeader.hasWidth_read.fails_iff.mpr short
  rw [ofBytes, failed]

theorem ofBytes_append (h : SnapshotHeader) (body : Bytes) :
    ofBytes (h.write ++ body) =
      if h.metadataSize.toInt < 0 then .error (.invalidMetadataSize h.metadataSize)
      else if h.metadataSize.toInt.toNat ≤ body.length then
        .ok ⟨h, body.take h.metadataSize.toInt.toNat, body.drop h.metadataSize.toInt.toNat⟩
      else .error (.malformed (.truncated h.metadataSize.toInt.toNat body.length)) := by
  rw [ofBytes, h.decodes_write body]
  dsimp only
  congr 1
  rw [readBody, Reader.run_bind, Reader.run_take]
  by_cases enough : h.metadataSize.toInt.toNat ≤ body.length
  · rw [if_pos enough, if_pos enough]
    rfl
  · rw [if_neg enough, if_neg enough]
    rfl

theorem ofBytes_write (snapshot : Snapshot)
    (sized : snapshot.header.metadataSize.toInt = snapshot.metadata.length) :
    ofBytes snapshot.write = .ok snapshot := by
  rw [write, List.append_assoc, ofBytes_append, sized, Int.toNat_natCast,
    if_neg (Int.not_lt.mpr (Int.natCast_nonneg _)), if_pos (by simp), List.take_left,
    List.drop_left]

theorem ofBytes_eq_ok_iff {bytes : Bytes} {snapshot : Snapshot} :
    ofBytes bytes = .ok snapshot ↔ snapshot.write = bytes ∧
      snapshot.header.metadataSize.toInt = snapshot.metadata.length := by
  constructor
  · intro read
    by_cases full : SnapshotHeader.size ≤ bytes.length
    · obtain ⟨h, body, rfl⟩ := SnapshotHeader.exists_of_size_le full
      rw [ofBytes_append] at read
      split_ifs at read with negative enough
      cases read
      refine ⟨?_, ?_⟩
      · rw [write, List.append_assoc, List.take_append_drop]
      · rw [List.length_take_of_le enough, Int.toNat_of_nonneg (Int.not_lt.mp negative)]
    · rw [ofBytes_of_short (Nat.not_le.mp full)] at read
      cases read
  · rintro ⟨rfl, sized⟩
    exact ofBytes_write snapshot sized

theorem ofBytes_eq_error_iff {bytes : Bytes} {e : SnapshotError} :
    ofBytes bytes = .error e ↔ Refused bytes e := by
  by_cases full : SnapshotHeader.size ≤ bytes.length
  · obtain ⟨h, body, rfl⟩ := SnapshotHeader.exists_of_size_le full
    have stated := statedSize_append h body
    have behind : (h.write ++ body).length - SnapshotHeader.size = body.length := by
      rw [List.length_append, h.length_write, Nat.add_sub_cancel_left]
    rw [ofBytes_append]
    constructor
    · intro failed
      split_ifs at failed with negative enough
      · cases failed
        rw [← stated] at negative ⊢
        exact .negative full negative
      · cases failed
        rw [← stated, ← behind]
        refine .truncated full (by rw [stated]; omega) ?_
        rw [stated]
        omega
    · intro refused
      cases refused with
      | tooSmall short => omega
      | negative _ negative =>
        rw [stated] at negative ⊢
        rw [if_pos negative]
      | truncated _ natural short =>
        rw [stated] at natural short ⊢
        rw [if_neg (by omega), if_neg (by omega), behind]
  · have short := Nat.not_le.mp full
    rw [ofBytes_of_short short]
    constructor
    · intro failed
      cases failed
      exact .tooSmall short
    · intro refused
      cases refused with
      | tooSmall => rfl
      | negative long => omega
      | truncated long => omega

theorem ofBytes_write_make (version : Int8) {metadata : Bytes} (data : Bytes)
    (small : metadata.length < 2 ^ 31) :
    ofBytes (make version metadata data).write = .ok (make version metadata data) :=
  ofBytes_write _ (Int32.toInt_ofNat_of_lt small)

theorem verify_make (version : Int8) (metadata data : Bytes) :
    (make version metadata data).verify = .ok () := by
  have header : (make version metadata data).header.computedHeaderCrc =
      (make version metadata data).header.headerCrc := rfl
  have body : Checksum.crc32c (make version metadata data).metadata =
      (make version metadata data).header.metadataCrc := rfl
  simp [verify, header, body]

/-- What is read is the whole file, divided where its header says; what is not has one of three
faults. -/
theorem ofBytes_exact (bytes : Bytes) :
    ((∃ snapshot, ofBytes bytes = .ok snapshot) ↔
      SnapshotHeader.size ≤ bytes.length ∧ 0 ≤ (statedSize bytes).toInt ∧
        SnapshotHeader.size + (statedSize bytes).toInt ≤ bytes.length) ∧
    (∀ snapshot, ofBytes bytes = .ok snapshot ↔ snapshot.write = bytes ∧
      snapshot.header.metadataSize.toInt = snapshot.metadata.length) ∧
    (∀ e, ofBytes bytes = .error e ↔ Refused bytes e) ∧
    ∀ version metadata data, metadata.length ≤ Int32.maxValue.toInt →
      ofBytes (make version metadata data).write = .ok (make version metadata data) ∧
        (make version metadata data).verify = .ok () := by
  refine ⟨⟨?_, ?_⟩, fun _ => ofBytes_eq_ok_iff, fun _ => ofBytes_eq_error_iff, ?_⟩
  · rintro ⟨snapshot, read⟩
    obtain ⟨rfl, sized⟩ := ofBytes_eq_ok_iff.mp read
    have stated : (statedSize snapshot.write).toInt = snapshot.metadata.length := by
      rw [write, List.append_assoc, statedSize_append, sized]
    have length : snapshot.write.length =
        SnapshotHeader.size + snapshot.metadata.length + snapshot.data.length := by
      simp [write, Nat.add_assoc]
    omega
  · rintro ⟨full, natural, enough⟩
    cases read : ofBytes bytes with
    | ok snapshot => exact ⟨snapshot, rfl⟩
    | error e =>
      cases ofBytes_eq_error_iff.mp read with
      | tooSmall short => omega
      | negative _ negative => omega
      | truncated _ _ short => omega
  · intro version metadata data small
    rw [Int32.toInt_maxValue] at small
    exact ⟨ofBytes_write_make version data (by omega), verify_make version metadata data⟩

theorem ofBytes_exact_boundary :
    let snapshot := make 2 [1, 2, 3] []
    ofBytes snapshot.write = .ok snapshot ∧ snapshot.verify = .ok () ∧
      ofBytes (snapshot.write.take 15) = .error (.malformed (.truncated 3 2)) ∧
      ofBytes (snapshot.write.take 12) = .error (.fileTooSmall 12) := by
  intro snapshot
  obtain ⟨-, -, -, made⟩ := ofBytes_exact snapshot.write
  obtain ⟨-, -, cut, -⟩ := ofBytes_exact (snapshot.write.take 15)
  obtain ⟨-, -, short, -⟩ := ofBytes_exact (snapshot.write.take 12)
  obtain ⟨read, verified⟩ := made 2 [1, 2, 3] [] (by decide)
  have stated : statedSize (snapshot.write.take 15) = 3 := by decide
  have torn : Refused (snapshot.write.take 15) (.malformed (.truncated 3 2)) := by
    have torn := @Refused.truncated (snapshot.write.take 15) (by decide) (by decide) (by decide)
    rwa [stated] at torn
  have headless : Refused (snapshot.write.take 12) (.fileTooSmall 12) :=
    @Refused.tooSmall (snapshot.write.take 12) (by decide)
  exact ⟨read, verified, (cut _).mpr torn, (short _).mpr headless⟩

end Snapshot
end PartitionLog
