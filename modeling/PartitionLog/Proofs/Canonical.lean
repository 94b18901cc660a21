import PartitionLog.Ntp
import PartitionLog.Proofs.Wire
import PartitionLog.Raft.Vnode

/-!
# Fields with one form

A field is canonical if its bytes are determined by the value: what a reader takes is what the
writer makes of the value, so that it reads back anywhere. Fixed-width integers, sized bytes, texts,
partition names (`Ntp.canonical_read`) and group members (`Vnode.canonical_read`) are.
-/
namespace PartitionLog

namespace Reader

variable {α β : Type} {reader : Reader α} {next : α → Reader β} {input rest : Bytes}

/-! ## What a reader has taken -/

theorem run_bind_eq_ok_iff {result : β} :
    (reader >>= next).run input = (.ok result, rest) ↔
      ∃ value behind, reader.run input = (.ok value, behind) ∧
        (next value).run behind = (.ok result, rest) := by
  rw [run_bind]
  rcases reader.run input with ⟨_ | value, behind⟩
  · simp
  · simp only [Prod.mk.injEq, Except.ok.injEq]
    constructor
    · intro found
      exact ⟨value, behind, ⟨rfl, rfl⟩, found⟩
    · rintro ⟨_, _, ⟨rfl, rfl⟩, found⟩
      exact found

theorem run_map_eq_ok_iff {f : α → β} {result : β} :
    (f <$> reader).run input = (.ok result, rest) ↔
      ∃ value, reader.run input = (.ok value, rest) ∧ f value = result := by
  simp only [← bind_pure_comp, run_bind_eq_ok_iff, run_pure, Prod.mk.injEq, Except.ok.injEq]
  constructor
  · rintro ⟨value, _, taken, rfl, rfl⟩
    exact ⟨value, taken, rfl⟩
  · rintro ⟨value, taken, rfl⟩
    exact ⟨value, rest, taken, rfl, rfl⟩

theorem run_take_eq_ok_iff {n : Nat} {bs : Bytes} :
    (take n).run input = (.ok bs, rest) ↔ bs.length = n ∧ input = bs ++ rest := by
  rw [run_take]
  constructor
  · intro taken
    split at taken
    · rename_i enough
      cases taken
      exact ⟨List.length_take_of_le enough, (List.take_append_drop n input).symm⟩
    · cases taken
  · rintro ⟨rfl, rfl⟩
    rw [if_pos (by simp), List.take_left, List.drop_left]

theorem run_varint_eq_ok_iff {v : Int64} :
    varint.run input = (.ok v, rest) ↔
      ∃ gs, Varint.Complete gs ∧ gs.length ≤ Varint.maxLength ∧ input = gs ++ rest ∧
        Varint.unzigzag (.ofNat (Varint.groupSum gs)) = v := by
  rw [Varint.run_varint]
  constructor
  · intro found
    cases answer : Varint.decodeUnsigned input with
    | error e =>
      rw [answer] at found
      cases found
    | ok r =>
      obtain ⟨n, length⟩ := r
      obtain ⟨gs, behind, whole, rfl, room, rfl, rfl⟩ := Varint.decodeUnsigned_eq_ok_iff.mp answer
      rw [answer] at found
      cases found
      exact ⟨gs, whole, room, by rw [List.drop_left], rfl⟩
  · rintro ⟨gs, whole, room, rfl, rfl⟩
    rw [whole.decodeUnsigned, if_pos room]
    exact congrArg (Prod.mk _) List.drop_left

/-! ## Canonical fields -/

/-- Two fields in order. A structure is read as a pair of its first field and the others. -/
def pair (first : Reader α) (second : Reader β) : Reader (α × β) := do
  let x ← first
  let y ← second
  pure (x, y)

def Canonical (reader : Reader α) (write : α → Bytes) : Prop :=
  ∀ input value rest, reader.run input = (.ok value, rest) →
    input = write value ++ rest ∧ reader.Decodes (write value) value

namespace Canonical

variable {write : α → Bytes}

theorem map {write' : β → Bytes} {f : α → β} (canonical : reader.Canonical write)
    (same : ∀ value, write' (f value) = write value) : (f <$> reader).Canonical write' := by
  intro input result rest found
  obtain ⟨value, taken, rfl⟩ := run_map_eq_ok_iff.mp found
  obtain ⟨front, decodes⟩ := canonical input value rest taken
  rw [same]
  exact ⟨front, decodes.map f⟩

theorem of_eq {reader' : Reader α} (same : reader' = reader) (canonical : reader.Canonical write) :
    reader'.Canonical write :=
  same ▸ canonical

theorem pair {second : Reader β} {write' : β → Bytes} (canonical : reader.Canonical write)
    (canonical' : second.Canonical write') :
    (reader.pair second).Canonical fun x => write x.1 ++ write' x.2 := by
  intro input result rest found
  obtain ⟨x, behindX, takenX, found⟩ := run_bind_eq_ok_iff.mp found
  obtain ⟨y, behindY, takenY, found⟩ := run_bind_eq_ok_iff.mp found
  cases found
  obtain ⟨rfl, decodesX⟩ := canonical _ _ _ takenX
  obtain ⟨rfl, decodesY⟩ := canonical' _ _ _ takenY
  exact ⟨(List.append_assoc ..).symm, decodesX.bind (decodesY.bind_pure _)⟩

theorem fixed (width : Nat) : (fixed width).Canonical (Bytes.littleEndian width) := by
  intro input n rest found
  obtain ⟨bs, taken, rfl⟩ := run_map_eq_ok_iff.mp found
  obtain ⟨rfl, front⟩ := run_take_eq_ok_iff.mp taken
  refine ⟨?_, .fixed _ _ bs.ofLittleEndian_lt⟩
  rw [Bytes.littleEndian_ofLittleEndian, front]

theorem u8 : Reader.u8.Canonical Wire.u8 :=
  (fixed 1).map fun n => by
    rw [Wire.u8, UInt8.toNat_ofNat']
    exact Bytes.littleEndian_mod 1 n

theorem u16 : Reader.u16.Canonical Wire.u16 :=
  (fixed 2).map fun n => by
    rw [Wire.u16, UInt16.toNat_ofNat']
    exact Bytes.littleEndian_mod 2 n

theorem u32 : Reader.u32.Canonical Wire.u32 :=
  (fixed 4).map fun n => by
    rw [Wire.u32, UInt32.toNat_ofNat']
    exact Bytes.littleEndian_mod 4 n

theorem u64 : Reader.u64.Canonical Wire.u64 :=
  (fixed 8).map fun n => by
    rw [Wire.u64, UInt64.toNat_ofNat']
    exact Bytes.littleEndian_mod 8 n

theorem i8 : Reader.i8.Canonical Wire.i8 :=
  u8.map fun v => by rw [Wire.i8, UInt8.toUInt8_toInt8]

theorem i32 : Reader.i32.Canonical Wire.i32 :=
  u32.map fun v => by rw [Wire.i32, UInt32.toUInt32_toInt32]

theorem i64 : Reader.i64.Canonical Wire.i64 :=
  u64.map fun v => by rw [Wire.i64, UInt64.toUInt64_toInt64]

theorem size : Reader.size.Canonical fun n => Wire.i32 (Int32.ofNat n) := by
  intro input n rest found
  obtain ⟨length, behind, taken, sized⟩ := run_bind_eq_ok_iff.mp found
  by_cases negative : length.toInt < 0
  · rw [if_pos negative] at sized
    cases sized
  · rw [if_neg negative] at sized
    cases sized
    have upper := length.toInt_lt
    have same : Int32.ofNat length.toInt.toNat = length := by
      apply Int32.toInt_inj.mp
      rw [Int32.toInt_ofNat_of_lt] <;> omega
    obtain ⟨front, -⟩ := i32 _ _ _ taken
    refine ⟨?_, .size (by omega)⟩
    change input = Wire.i32 (Int32.ofNat length.toInt.toNat) ++ rest
    rw [same, front]

theorem sizedBytes : Reader.sizedBytes.Canonical Wire.sizedBytes := by
  intro input bs rest found
  obtain ⟨n, behind, sized, taken⟩ := run_bind_eq_ok_iff.mp found
  obtain ⟨rfl, rfl⟩ := run_take_eq_ok_iff.mp taken
  obtain ⟨front, decodes⟩ := size _ _ _ sized
  refine ⟨?_, decodes.bind (.take bs)⟩
  rw [front, Wire.sizedBytes, List.append_assoc]

theorem toUTF8_of_fromUTF8? {bs : ByteArray} {s : String}
    (decoded : String.fromUTF8? bs = some s) : s.toUTF8 = bs := by
  unfold String.fromUTF8? at decoded
  split at decoded
  · cases decoded
    rfl
  · cases decoded

theorem text : Reader.text.Canonical Wire.text := by
  intro input s rest found
  obtain ⟨bs, behind, sized, valid⟩ := run_bind_eq_ok_iff.mp found
  obtain ⟨front, decodes⟩ := sizedBytes _ _ _ sized
  cases decoded : String.fromUTF8? ⟨bs.toArray⟩ with
  | none =>
    rw [decoded] at valid
    cases valid
  | some s' =>
    rw [decoded] at valid
    cases valid
    have bytes : s.toUTF8.data.toList = bs := by rw [toUTF8_of_fromUTF8? decoded]
    refine ⟨?_, ?_⟩
    · rw [Wire.text, bytes, front]
    · intro following
      rw [Wire.text, bytes, Reader.text, run_bind_ok (decodes following), decoded, run_pure]

end Canonical
end Reader

/-! ## Partition names -/

namespace Ntp

theorem decodes_write {ntp : Ntp} (ns : ntp.ns.utf8ByteSize < 2 ^ 31)
    (topic : ntp.topic.utf8ByteSize < 2 ^ 31) : read.Decodes ntp.write ntp := by
  rw [write, List.append_assoc]
  exact (Reader.Decodes.text ns).bind <| (Reader.Decodes.text topic).bind <|
    (Reader.Decodes.i32 ntp.partition).bind_pure _

theorem canonical_read : read.Canonical write := by
  have fields := Reader.Canonical.text.pair (Reader.Canonical.text.pair Reader.Canonical.i32)
  refine .of_eq ?_ (fields.map (f := fun x => ⟨x.1, x.2.1, x.2.2⟩) fun _ => ?_)
  · simp [read, Reader.pair]
  · simp only [write, List.append_assoc]

end Ntp

/-! ## Group members -/

namespace Vnode

theorem decodes_write (node : Vnode) : read.Decodes node.write node :=
  (Reader.Decodes.i32 node.id).bind ((Reader.Decodes.i64 node.revision).bind_pure _)

theorem canonical_read : read.Canonical write := by
  have fields := Reader.Canonical.i32.pair Reader.Canonical.i64
  refine .of_eq ?_ (fields.map (f := fun x => ⟨x.1, x.2⟩) fun _ => rfl)
  simp [read, Reader.pair]

end Vnode
end PartitionLog
