import PartitionLog.Proofs.Varint.Groups
import PartitionLog.Reader

/-!
# Varints read back

A number comes back from its groups, whatever follows them, and no part of them is a number:
`encode_readBack`. Of any bytes, the first ten decide whether there is a number at the front
(`decodeUnsigned_accepts`); the groups that it is read from end at the first byte with a clear high
bit (`decodeUnsigned_eq_ok_iff`).
-/
namespace PartitionLog.Varint

/-! ## Interleaving -/

theorem shiftRight_sign (v : Int64) : v >>> 63 = if v.toInt < 0 then -1 else 0 := by
  have lower := v.le_toInt
  have upper := v.toInt_lt
  have shifted : (v >>> 63).toInt = v.toInt / 2 ^ 63 := by
    rw [← Int64.toInt_toBitVec, Int64.toBitVec_shiftRight]
    change (v.toBitVec.sshiftRight 63).toInt = _
    rw [BitVec.toInt_sshiftRight, Int.shiftRight_eq_div_pow]
    rfl
  apply Int64.toInt_inj.mp
  rw [shifted]
  split
  · change v.toInt / 2 ^ 63 = -1
    omega
  · change v.toInt / 2 ^ 63 = 0
    omega

theorem toNat_shiftLeft_one (v : Int64) :
    ((v <<< 1).toUInt64.toNat : Int) = 2 * v.toInt % 2 ^ 64 := by
  have doubled : (v <<< 1).toUInt64.toNat = 2 * v.toBitVec.toNat % 2 ^ 64 := by
    rw [← Int64.toNat_toBitVec, Int64.toBitVec_shiftLeft]
    change (v.toBitVec <<< 1).toNat = _
    rw [BitVec.toNat_shiftLeft, Nat.shiftLeft_eq, Nat.mul_comm]
  have signed := v.toBitVec.toInt_eq_toNat_cond
  rw [Int64.toInt_toBitVec] at signed
  rw [doubled]
  split at signed <;> omega

theorem toNat_zigzag (v : Int64) :
    ((zigzag v).toNat : Int) = if v.toInt < 0 then -2 * v.toInt - 1 else 2 * v.toInt := by
  have lower := v.le_toInt
  have upper := v.toInt_lt
  have doubled := toNat_shiftLeft_one v
  rw [zigzag, shiftRight_sign]
  split
  -- The sign is all ones there, which inverts the bits in front of it.
  · have inverted : (~~~(v <<< 1)).toUInt64.toNat = 2 ^ 64 - 1 - (v <<< 1).toUInt64.toNat := by
      rw [Int64.toUInt64_not]
      exact UInt64.toNat_not _
    rw [Int64.xor_neg_one, inverted]
    omega
  · rw [Int64.xor_zero]
    omega

theorem toInt_unzigzag (n : UInt64) :
    (unzigzag n).toInt =
      if n.toNat % 2 = 0 then (n.toNat / 2 : Int) else -(n.toNat / 2 : Int) - 1 := by
  have bound := n.toNat_lt
  have half : (n >>> 1).toInt64.toInt = n.toNat / 2 := by
    have shifted : (n >>> 1).toNat = n.toNat / 2 := by
      rw [UInt64.toNat_shiftRight]
      exact Nat.shiftRight_eq_div_pow n.toNat 1
    rw [← Int64.toInt_toBitVec, UInt64.toBitVec_toInt64, BitVec.toInt_eq_toNat_cond]
    change (if 2 * (n >>> 1).toNat < 2 ^ 64 then ((n >>> 1).toNat : Int) else _) = _
    rw [shifted, if_pos (by omega)]
    rfl
  have lowest : n &&& 1 = UInt64.ofNat (n.toNat % 2) := by
    have small : n.toNat % 2 < 2 ^ 64 := Nat.lt_trans (Nat.mod_lt _ (by decide)) (by decide)
    apply UInt64.toNat_inj.mp
    rw [UInt64.toNat_and, UInt64.toNat_ofNat_of_lt' small]
    exact Nat.and_two_pow_sub_one_eq_mod n.toNat 1
  rw [unzigzag, lowest]
  split
  · rename_i even
    rw [even]
    change ((n >>> 1).toInt64 ^^^ 0).toInt = _
    rw [Int64.xor_zero, half]
  · rename_i odd
    rw [Nat.mod_two_ne_zero.mp odd]
    change ((n >>> 1).toInt64 ^^^ -1).toInt = _
    rw [Int64.xor_neg_one, Int64.toInt_not, half, Int.bmod_eq_of_le] <;> omega

theorem unzigzag_zigzag (v : Int64) : unzigzag (zigzag v) = v := by
  have interleaved := toNat_zigzag v
  apply Int64.toInt_inj.mp
  rw [toInt_unzigzag]
  split at interleaved <;> split <;> omega

theorem zigzag_unzigzag (n : UInt64) : zigzag (unzigzag n) = n := by
  have signed := toInt_unzigzag n
  have back := toNat_zigzag (unzigzag n)
  apply UInt64.toNat_inj.mp
  split at signed <;> split at back <;> omega

/-! ## Reading -/

theorem Complete.decodeUnsigned {gs : Bytes} (whole : Complete gs) (rest : Bytes) :
    decodeUnsigned (gs ++ rest) =
      if gs.length ≤ maxLength then .ok (.ofNat (groupSum gs), gs.length)
      else .error .varintOverflow := by
  have answer := whole.decodeFrom rest (show UInt64.toNat 0 < 128 ^ 0 by decide)
  rwa [Nat.zero_add, UInt64.toNat_zero, Nat.zero_add, Nat.pow_zero, Nat.one_mul] at answer

theorem decodeUnsigned_of_continued {bs : Bytes} (continued : ∀ b ∈ bs, 128 ≤ b.toNat) :
    decodeUnsigned bs =
      if maxLength ≤ bs.length then .error .varintOverflow
      else .error (.truncated (bs.length + 1) bs.length) := by
  have answer := decodeFrom_of_continued continued (show UInt64.toNat 0 < 128 ^ 0 by decide)
  rwa [Nat.zero_add] at answer

theorem decodeUnsigned_eq_ok_iff {input : Bytes} {n : UInt64} {length : Nat} :
    decodeUnsigned input = .ok (n, length) ↔
      ∃ gs rest, Complete gs ∧ input = gs ++ rest ∧ gs.length ≤ maxLength ∧
        UInt64.ofNat (groupSum gs) = n ∧ gs.length = length := by
  constructor
  · intro found
    rcases Complete.split input with ⟨gs, rest, whole, rfl⟩ | continued
    · rw [whole.decodeUnsigned] at found
      split at found
      · rename_i room
        cases found
        exact ⟨gs, rest, whole, rfl, room, rfl, rfl⟩
      · cases found
    · rw [decodeUnsigned_of_continued continued] at found
      split at found <;> cases found
  · rintro ⟨gs, rest, whole, rfl, room, rfl, rfl⟩
    rw [whole.decodeUnsigned, if_pos room]

theorem Complete.decodeUnsigned_front {gs front : Bytes} (whole : Complete gs)
    (room : gs.length ≤ maxLength) (isFront : front <+: gs) (short : front ≠ gs) :
    Varint.decodeUnsigned front = .error (.truncated (front.length + 1) front.length) := by
  obtain ⟨continued, less⟩ := whole.continued isFront short
  rw [decodeUnsigned_of_continued continued, if_neg (by omega)]

theorem decode_of_ok {input : Bytes} {n : UInt64} {length : Nat}
    (found : decodeUnsigned input = .ok (n, length)) :
    decode input = .ok (unzigzag n, length) := by
  rw [decode, found]
  rfl

theorem decode_of_error {input : Bytes} {e : DecodeError}
    (failed : decodeUnsigned input = .error e) : decode input = .error e := by
  rw [decode, failed]
  rfl

theorem run_varint (input : Bytes) :
    Reader.varint.run input =
      match decodeUnsigned input with
      | .ok (n, length) => (.ok (unzigzag n), input.drop length)
      | .error e => (.error e, input) := by
  unfold Reader.run Reader.varint decode
  cases decodeUnsigned input <;> rfl

/-! ## Writing -/

theorem groups_succ (limit : Nat) (n : UInt64) :
    groups (limit + 1) n =
      if n.toNat < 128 then [lowGroup n] else (lowGroup n ||| 0x80) :: groups limit (n >>> 7) := by
  simp only [groups, shiftRight_seven_eq_zero_iff]

theorem length_groups_le (limit : Nat) (n : UInt64) : (groups limit n).length ≤ limit := by
  induction limit generalizing n with
  | zero => exact Nat.le_refl 0
  | succ limit ih =>
    rw [groups_succ]
    split
    · exact Nat.le_add_left 1 limit
    · exact Nat.succ_le_succ (ih _)

theorem lowGroup_lt (n : UInt64) : (lowGroup n).toNat < 128 := by
  rw [toNat_lowGroup]
  exact Nat.mod_lt _ (by decide)

theorem shiftRight_seven_lt {limit : Nat} {n : UInt64} (fits : n.toNat < 128 ^ (limit + 1)) :
    (n >>> 7).toNat < 128 ^ limit := by
  rw [toNat_shiftRight_seven]
  exact Nat.div_lt_of_lt_mul (Nat.pow_succ' ▸ fits)

theorem complete_groups (limit : Nat) {n : UInt64} (fits : n.toNat < 128 ^ (limit + 1)) :
    Complete (groups (limit + 1) n) := by
  induction limit generalizing n with
  | zero =>
    have small : n.toNat < 128 := fits
    rw [groups_succ, if_pos small]
    exact .last (lowGroup_lt n)
  | succ limit ih =>
    have high : 128 ≤ (lowGroup n ||| 0x80).toNat := by
      rw [toNat_continued]
      exact Nat.le_add_left 128 _
    rw [groups_succ]
    split
    · exact .last (lowGroup_lt n)
    · exact .more high (ih (shiftRight_seven_lt fits))

theorem groupSum_lowGroup {n : UInt64} (small : n.toNat < 128) :
    groupSum [lowGroup n] = n.toNat := by
  rw [groupSum_cons, groupSum_nil, toNat_lowGroup]
  omega

theorem groupSum_groups (limit : Nat) {n : UInt64} (fits : n.toNat < 128 ^ (limit + 1)) :
    groupSum (groups (limit + 1) n) = n.toNat := by
  induction limit generalizing n with
  | zero =>
    have small : n.toNat < 128 := fits
    rw [groups_succ, if_pos small, groupSum_lowGroup small]
  | succ limit ih =>
    rw [groups_succ]
    split
    · rename_i small
      exact groupSum_lowGroup small
    · rw [groupSum_cons, toNat_continued, ih (shiftRight_seven_lt fits), toNat_shiftRight_seven]
      omega

theorem lt_of_uint64 (n : UInt64) : n.toNat < 128 ^ (9 + 1) :=
  Nat.lt_of_lt_of_le n.toNat_lt (by decide)

/-! ## Reading what was written -/

theorem complete_encodeUnsigned (n : UInt64) : Complete (encodeUnsigned n) :=
  complete_groups 9 (lt_of_uint64 n)

theorem length_encodeUnsigned_le (n : UInt64) : (encodeUnsigned n).length ≤ maxLength :=
  length_groups_le maxLength n

theorem decodeUnsigned_encodeUnsigned (n : UInt64) (following : Bytes) :
    decodeUnsigned (encodeUnsigned n ++ following) = .ok (n, (encodeUnsigned n).length) := by
  have sum : groupSum (encodeUnsigned n) = n.toNat := groupSum_groups 9 (lt_of_uint64 n)
  rw [(complete_encodeUnsigned n).decodeUnsigned, if_pos (length_encodeUnsigned_le n), sum,
    UInt64.ofNat_toNat]

theorem decode_encode (v : Int64) (following : Bytes) :
    decode (encode v ++ following) = .ok (v, length v) := by
  rw [encode, decode_of_ok (decodeUnsigned_encodeUnsigned (zigzag v) following), unzigzag_zigzag,
    ← length_encode, encode]

theorem length_pos (v : Int64) : 0 < length v := by
  rw [← length_encode]
  exact (complete_encodeUnsigned (zigzag v)).length_pos

theorem encode_readBack (v : Int64) (n : UInt64) (following : Bytes) :
    (decode (encode v ++ following) = .ok (v, length v) ∧
      decodeUnsigned (encodeUnsigned n ++ following) = .ok (n, (encodeUnsigned n).length)) ∧
    (length v = (encode v).length ∧ 1 ≤ length v ∧ length v ≤ 10 ∧
      1 ≤ (encodeUnsigned n).length ∧ (encodeUnsigned n).length ≤ 10) ∧
    (∀ front, front <+: encode v → front ≠ encode v →
      decode front = .error (.truncated (front.length + 1) front.length)) ∧
    (∀ front, front <+: encodeUnsigned n → front ≠ encodeUnsigned n →
      decodeUnsigned front = .error (.truncated (front.length + 1) front.length)) ∧
    unzigzag (zigzag v) = v ∧ zigzag (unzigzag n) = n := by
  have cut (n : UInt64) (front : Bytes) (isFront : front <+: encodeUnsigned n)
      (short : front ≠ encodeUnsigned n) :
      decodeUnsigned front = .error (.truncated (front.length + 1) front.length) :=
    (complete_encodeUnsigned n).decodeUnsigned_front (length_encodeUnsigned_le n) isFront short
  have room : length v ≤ 10 := length_encode v ▸ length_encodeUnsigned_le (zigzag v)
  refine ⟨⟨decode_encode v following, decodeUnsigned_encodeUnsigned n following⟩,
    ⟨(length_encode v).symm, length_pos v, room, (complete_encodeUnsigned n).length_pos,
      length_encodeUnsigned_le n⟩, ?_, cut n, unzigzag_zigzag v, zigzag_unzigzag n⟩
  exact fun front isFront short => decode_of_error (cut (zigzag v) front isFront short)

/-! ## What is accepted -/

theorem Complete.findIdx?_append {gs : Bytes} (whole : Complete gs) (rest : Bytes) :
    (gs ++ rest).findIdx? (fun b => b &&& 0x80 = 0) = some (gs.length - 1) := by
  simp only [and_high_eq_zero_iff]
  induction whole with
  | last ends => rw [List.singleton_append, List.findIdx?_cons, if_pos (decide_eq_true ends)]; rfl
  | more goesOn later ih =>
    have positive := later.length_pos
    rw [List.cons_append, List.findIdx?_cons, if_neg (by simpa using goesOn), ih, Option.map_some,
      List.length_cons, Nat.sub_add_cancel positive, Nat.add_sub_cancel]

theorem Complete.take_append {gs : Bytes} (whole : Complete gs) (rest : Bytes) :
    (gs ++ rest).take (gs.length - 1 + 1) = gs := by
  rw [Nat.sub_add_cancel whole.length_pos, List.take_left]

theorem findIdx?_of_continued {bs : Bytes} (continued : ∀ b ∈ bs, 128 ≤ b.toNat) :
    bs.findIdx? (fun b => b &&& 0x80 = 0) = none := by
  simp only [and_high_eq_zero_iff]
  exact List.findIdx?_eq_none_iff.mpr fun b member =>
    decide_eq_false (Nat.not_lt.mpr (continued b member))

theorem decodeUnsigned_eq_ok_iff_findIdx? {d : Bytes} {n : UInt64} {length : Nat} :
    decodeUnsigned d = .ok (n, length) ↔
      ∃ i, d.findIdx? (fun b => b &&& 0x80 = 0) = some i ∧ i < 10 ∧ length = i + 1 ∧
        n.toNat = groupSum (d.take (i + 1)) % 2 ^ 64 := by
  rw [decodeUnsigned_eq_ok_iff]
  constructor
  · rintro ⟨gs, rest, whole, rfl, room, rfl, rfl⟩
    have positive := whole.length_pos
    refine ⟨gs.length - 1, whole.findIdx?_append rest, ?_, (Nat.sub_add_cancel positive).symm, ?_⟩
    · unfold maxLength at room
      omega
    · rw [whole.take_append, UInt64.toNat_ofNat']
  · rintro ⟨i, last, room, rfl, sum⟩
    rcases Complete.split d with ⟨gs, rest, whole, rfl⟩ | continued
    · rw [whole.findIdx?_append] at last
      obtain rfl := Option.some.inj last
      have positive := whole.length_pos
      rw [whole.take_append, ← UInt64.toNat_ofNat'] at sum
      refine ⟨gs, rest, whole, rfl, ?_, (UInt64.toNat_inj.mp sum).symm, ?_⟩
      · unfold maxLength
        omega
      · exact (Nat.sub_add_cancel positive).symm
    · rw [findIdx?_of_continued continued] at last
      cases last

theorem decodeUnsigned_eq_overflow_iff {d : Bytes} :
    decodeUnsigned d = .error .varintOverflow ↔
      10 ≤ d.length ∧ ∀ b ∈ d.take 10, b &&& 0x80 ≠ 0 := by
  simp only [ne_eq, and_high_eq_zero_iff, Nat.not_lt]
  rcases Complete.split d with ⟨gs, rest, whole, rfl⟩ | continued
  · rw [whole.decodeUnsigned]
    by_cases room : gs.length ≤ maxLength
    · have reached : gs <+: (gs ++ rest).take 10 :=
        List.prefix_take_iff.mpr ⟨List.prefix_append gs rest, room⟩
      obtain ⟨b, member, ends⟩ := whole.exists_last
      rw [if_pos room]
      refine iff_of_false nofun fun full => ?_
      exact absurd ends (Nat.not_lt.mpr (full.2 b (reached.subset member)))
    · have long : 10 < gs.length := Nat.lt_of_not_le room
      have short : gs.take 10 ≠ gs := fun same => room (same ▸ List.length_take_le 10 gs)
      rw [if_neg room, List.take_append_of_le_length (Nat.le_of_lt long)]
      refine iff_of_true rfl ⟨?_, (whole.continued (List.take_prefix 10 gs) short).1⟩
      rw [List.length_append]
      omega
  · have front : ∀ b ∈ d.take 10, 128 ≤ b.toNat := fun b member =>
      continued b (List.mem_of_mem_take member)
    rw [decodeUnsigned_of_continued continued]
    by_cases long : maxLength ≤ d.length
    · rw [if_pos long]
      exact iff_of_true rfl ⟨long, front⟩
    · rw [if_neg long]
      exact iff_of_false nofun fun full => long full.1

theorem error_of_decodeUnsigned {d : Bytes} {e : DecodeError}
    (failed : decodeUnsigned d = .error e) :
    e = .varintOverflow ∨ e = .truncated (d.length + 1) d.length := by
  rcases Complete.split d with ⟨gs, rest, whole, rfl⟩ | continued
  · rw [whole.decodeUnsigned] at failed
    split at failed <;> cases failed
    exact .inl rfl
  · rw [decodeUnsigned_of_continued continued] at failed
    split at failed <;> cases failed
    · exact .inl rfl
    · exact .inr rfl

/-- The first byte with a clear high bit has to be among the first ten. -/
theorem decodeUnsigned_accepts (d : Bytes) :
    let last := d.findIdx? fun b => b &&& 0x80 = 0
    (∀ n length, decodeUnsigned d = .ok (n, length) ↔
      ∃ i, last = some i ∧ i < 10 ∧ length = i + 1 ∧
        n.toNat = groupSum (d.take (i + 1)) % 2 ^ 64) ∧
    (decodeUnsigned d = .error .varintOverflow ↔
      10 ≤ d.length ∧ ∀ b ∈ d.take 10, b &&& 0x80 ≠ 0) ∧
    (decodeUnsigned d = .error (.truncated (d.length + 1) d.length) ↔
      ¬ (∃ i, last = some i ∧ i < 10) ∧
        ¬ (10 ≤ d.length ∧ ∀ b ∈ d.take 10, b &&& 0x80 ≠ 0)) ∧
    Reader.varint.run d =
      match decodeUnsigned d with
      | .ok (n, length) => (.ok (unzigzag n), d.drop length)
      | .error e => (.error e, d) := by
  intro last
  refine ⟨fun n length => decodeUnsigned_eq_ok_iff_findIdx?, decodeUnsigned_eq_overflow_iff, ?_,
    run_varint d⟩
  have accepted : (∃ i, last = some i ∧ i < 10) ↔ ∃ r, decodeUnsigned d = .ok r := by
    constructor
    · rintro ⟨i, found, room⟩
      exact ⟨(.ofNat (groupSum (d.take (i + 1))), i + 1),
        decodeUnsigned_eq_ok_iff_findIdx?.mpr ⟨i, found, room, rfl, UInt64.toNat_ofNat'⟩⟩
    · rintro ⟨r, found⟩
      obtain ⟨i, found, room, -⟩ := decodeUnsigned_eq_ok_iff_findIdx?.mp found
      exact ⟨i, found, room⟩
  rw [← decodeUnsigned_eq_overflow_iff, accepted]
  cases answer : decodeUnsigned d with
  | ok r => simp
  | error e =>
    rcases error_of_decodeUnsigned answer with rfl | rfl <;> simp

end PartitionLog.Varint
