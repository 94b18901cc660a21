import PartitionLog.Batch.Record
import PartitionLog.Proofs.Canonical

/-!
# Numbers that do not fit

Ten groups have room for 70 bits, and a number is read from the low 64 of them. So it is what the
groups stand for unless the tenth is above one, and whatever is read through a varint, a length or a
delta, is cut in the same way (`read_cut`). Only an eleventh group is an overflow.
-/
namespace PartitionLog.Varint

/-- The groups are those of `v` up to 64 bits, whatever stands above. -/
structure ReadAs (gs : Bytes) (v : Int64) : Prop where
  complete : Complete gs
  room : gs.length ≤ 10
  cut : (zigzag v).toNat = groupSum gs % 2 ^ 64

theorem groupSum_lt_iff {gs : Bytes} (complete : Complete gs) {k : Nat}
    (room : gs.length ≤ k + 1) : groupSum gs < 2 * 128 ^ k ↔ ∀ b ∈ gs[k]?, b.toNat ≤ 1 := by
  induction complete generalizing k with
  | @last b ends =>
    rw [groupSum_cons, groupSum_nil]
    cases k with
    | zero =>
      simp only [List.getElem?_cons_zero, Option.mem_some_iff, forall_eq']
      omega
    | succ k =>
      refine iff_of_true ?_ nofun
      have big : 0 < 128 ^ k := Nat.pow_pos (by decide)
      rw [Nat.pow_succ]
      omega
  | @more b bs goesOn later ih =>
    have positive := later.length_pos
    rw [List.length_cons] at room
    cases k with
    | zero => omega
    | succ k =>
      rw [groupSum_cons, List.getElem?_cons_succ, ← ih (Nat.le_of_succ_le_succ room), Nat.pow_succ]
      omega

theorem ReadAs.eq {gs : Bytes} {v : Int64} (readAs : ReadAs gs v) :
    unzigzag (.ofNat (groupSum gs)) = v := by
  have bits : UInt64.ofNat (groupSum gs) = zigzag v := by
    apply UInt64.toNat_inj.mp
    rw [UInt64.toNat_ofNat', readAs.cut]
  rw [bits, unzigzag_zigzag]

theorem readAs_unzigzag {gs : Bytes} (complete : Complete gs) (room : gs.length ≤ 10) :
    ReadAs gs (unzigzag (.ofNat (groupSum gs))) :=
  ⟨complete, room, by rw [zigzag_unzigzag, UInt64.toNat_ofNat']⟩

/-! ## What is read through a varint -/

theorem run_varint_eq_ok_iff {input rest : Bytes} {v : Int64} :
    Reader.varint.run input = (.ok v, rest) ↔ ∃ gs, ReadAs gs v ∧ input = gs ++ rest := by
  rw [Reader.run_varint_eq_ok_iff]
  constructor
  · rintro ⟨gs, complete, room, rfl, rfl⟩
    exact ⟨gs, readAs_unzigzag complete room, rfl⟩
  · rintro ⟨gs, readAs, rfl⟩
    exact ⟨gs, readAs.complete, readAs.room, rfl, readAs.eq⟩

theorem run_nullableBytes {gs : Bytes} {v : Int64} (size : ReadAs gs v) (rest : Bytes) :
    Reader.nullableBytes.run (gs ++ rest) =
      if v.toInt ≤ 0 then (.ok none, rest)
      else (some <$> Reader.take v.toInt.toNat).run rest := by
  have taken : Reader.varint.run (gs ++ rest) = (.ok v, rest) :=
    run_varint_eq_ok_iff.mpr ⟨gs, size, rfl⟩
  rw [Reader.nullableBytes, Reader.run_bind_ok taken]
  split <;> rfl

theorem exists_groups_of_record {input rest : Bytes} {record : Record}
    (found : Record.read.run input = (.ok record, rest)) :
    ∃ length timestampDelta offsetDelta behind,
      input = length ++ Wire.i8 record.attributes ++ timestampDelta ++ offsetDelta ++ behind ∧
        ReadAs length record.length ∧ ReadAs timestampDelta record.timestampDelta ∧
        ReadAs offsetDelta record.offsetDelta := by
  simp only [Record.read, Reader.run_bind_eq_ok_iff, Reader.run_pure] at found
  obtain ⟨_, _, takenLength, _, _, takenAttributes, _, _, takenTime, _, behind, takenOffset, _, _, -,
    _, _, -, _, _, -, _, _, -, same⟩ := found
  cases same
  obtain ⟨length, readLength, rfl⟩ := run_varint_eq_ok_iff.mp takenLength
  obtain ⟨rfl, -⟩ := Reader.Canonical.i8 _ _ _ takenAttributes
  obtain ⟨time, readTime, rfl⟩ := run_varint_eq_ok_iff.mp takenTime
  obtain ⟨offset, readOffset, rfl⟩ := run_varint_eq_ok_iff.mp takenOffset
  exact ⟨length, time, offset, behind, by simp only [List.append_assoc], readLength, readTime,
    readOffset⟩

theorem read_cut (input : Bytes) :
    (∀ gs rest, Complete gs → input = gs ++ rest →
      decodeUnsigned input =
        if gs.length ≤ 10 then .ok (.ofNat (groupSum gs), gs.length) else .error .varintOverflow) ∧
    (∀ n length, decodeUnsigned input = .ok (n, length) →
      n.toNat = groupSum (input.take length) % 2 ^ 64 ∧
        (n.toNat = groupSum (input.take length) ↔
          ∀ b ∈ (input.take length)[9]?, b.toNat ≤ 1)) ∧
    (∀ v rest, Reader.varint.run input = (.ok v, rest) ↔
      ∃ gs, ReadAs gs v ∧ input = gs ++ rest) ∧
    (∀ gs v rest, ReadAs gs v → input = gs ++ rest →
      Reader.nullableBytes.run input =
        if v.toInt ≤ 0 then (.ok none, rest)
        else (some <$> Reader.take v.toInt.toNat).run rest) ∧
    ∀ record rest, Record.read.run input = (.ok record, rest) →
      ∃ length timestampDelta offsetDelta behind,
        input = length ++ Wire.i8 record.attributes ++ timestampDelta ++ offsetDelta ++ behind ∧
          ReadAs length record.length ∧ ReadAs timestampDelta record.timestampDelta ∧
          ReadAs offsetDelta record.offsetDelta := by
  refine ⟨?_, fun n length found => ?_, fun v rest => run_varint_eq_ok_iff, ?_,
    fun record rest => exists_groups_of_record⟩
  · rintro gs rest complete rfl
    exact complete.decodeUnsigned rest
  · obtain ⟨gs, rest, complete, rfl, room, rfl, rfl⟩ := decodeUnsigned_eq_ok_iff.mp found
    have fits : groupSum gs < 2 ^ 64 ↔ ∀ b ∈ gs[9]?, b.toNat ≤ 1 := groupSum_lt_iff complete room
    rw [List.take_left, UInt64.toNat_ofNat', ← fits]
    exact ⟨rfl, Nat.mod_eq_iff_lt (by decide)⟩
  · rintro gs v rest size rfl
    exact run_nullableBytes size rest

/-- The tenth group stands for 2 to the 64, and nothing of it is left in a word. -/
theorem read_cut_tenthGroup :
    let gs : Bytes := List.replicate 9 0x80 ++ [0x02]
    Complete gs ∧ groupSum gs = 2 ^ 64 ∧ decodeUnsigned gs = .ok (0, 10) ∧
      Reader.varint.run gs = (.ok 0, []) ∧ Reader.nullableBytes.run gs = (.ok none, []) := by
  intro gs
  have goesOn : ∀ b ∈ List.replicate 9 (0x80 : UInt8), 128 ≤ b.toNat := by simp
  have complete : Complete gs := .append goesOn (.last (by decide))
  have sum : groupSum gs = 2 ^ 64 := by simp [gs, List.replicate_succ]
  exact ⟨complete, sum, rfl, rfl, rfl⟩

end PartitionLog.Varint
