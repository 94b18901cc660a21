import PartitionLog.Bytes.Lemmas
import PartitionLog.Proofs.Varint
import PartitionLog.Reader
import PartitionLog.Wire

/-!
# Fields read back

`Decodes` says that a reader takes exactly some bytes, whatever follows them, and what it makes of
them. It composes as readers and byte strings do (`bind`, `replicate`), so that each form of a
field has one lemma.
-/
namespace PartitionLog

/-! ## Single bytes -/

theorem Wire.u8_eq (v : UInt8) : u8 v = [v] := by
  simp [u8, Bytes.littleEndian]

theorem Wire.i8_eq (v : Int8) : i8 v = [v.toUInt8] := u8_eq v.toUInt8

/-! ## Sizes -/

theorem Wire.length_lt_nullableBytes {bs? : Option Bytes} {bs : Bytes} (present : bs ∈ bs?) :
    bs.length < (nullableBytes bs?).length := by
  obtain rfl := Option.mem_def.mp present
  have prefixed := Varint.length_pos (Int64.ofNat bs.length)
  rw [nullableBytes, varint, List.length_append, Varint.length_encode]
  exact Nat.lt_add_of_pos_left prefixed

theorem length_le_flatMap {α : Type} (write : α → Bytes) {xs : List α} {x : α} (member : x ∈ xs) :
    (write x).length ≤ (xs.flatMap write).length := by
  obtain ⟨front, back, rfl⟩ := List.append_of_mem member
  simp only [List.flatMap_append, List.flatMap_cons, List.length_append]
  omega

theorem count_le_flatMap {α : Type} {write : α → Bytes} {xs : List α}
    (nonempty : ∀ x ∈ xs, 0 < (write x).length) : xs.length ≤ (xs.flatMap write).length := by
  induction xs with
  | nil => rfl
  | cons x xs ih =>
    have first := nonempty x List.mem_cons_self
    have rest := ih fun y member => nonempty y (List.mem_cons_of_mem x member)
    rw [List.flatMap_cons, List.length_append, List.length_cons]
    omega

namespace Reader

/-! ## Reading -/

def Decodes {α : Type} (reader : Reader α) (encoded : Bytes) (value : α) : Prop :=
  ∀ following, reader.run (encoded ++ following) = (.ok value, following)

namespace Decodes

variable {α β γ : Type} {reader : Reader α} {next : α → Reader β} {encoded later : Bytes}
  {value : α} {result : β}

theorem run (decodes : reader.Decodes encoded value) : reader.run encoded = (.ok value, []) := by
  have whole := decodes []
  rwa [List.append_nil] at whole

theorem of_eq {encoded' : Bytes} (same : encoded' = encoded)
    (decodes : reader.Decodes encoded value) : reader.Decodes encoded' value :=
  same ▸ decodes

/-! ## Sequences -/

theorem bind (first : reader.Decodes encoded value) (rest : (next value).Decodes later result) :
    (reader >>= next).Decodes (encoded ++ later) result := by
  intro following
  rw [List.append_assoc, run_bind_ok (first (later ++ following)), rest following]

theorem map (f : α → β) (decodes : reader.Decodes encoded value) :
    (f <$> reader).Decodes encoded (f value) := by
  intro following
  rw [← bind_pure_comp, run_bind_ok (decodes following), run_pure]

theorem bind_pure (f : α → β) (decodes : reader.Decodes encoded value) :
    (reader >>= fun x => pure (f x)).Decodes encoded (f value) := by
  rw [bind_pure_comp]
  exact decodes.map f

theorem replicate {write : γ → Bytes} {f : γ → α} {count : Nat} (xs : List γ)
    (counted : count = xs.length) (each : ∀ x ∈ xs, reader.Decodes (write x) (f x)) :
    (replicate reader count).Decodes (xs.flatMap write) (xs.map f) := by
  subst counted
  induction xs with
  | nil => exact fun following => rfl
  | cons x xs ih =>
    refine (each x List.mem_cons_self).bind ?_
    exact (ih fun y member => each y (List.mem_cons_of_mem x member)).bind_pure (f x :: ·)

theorem replicate_self {write : α → Bytes} (xs : List α)
    (each : ∀ x ∈ xs, reader.Decodes (write x) x) :
    (Reader.replicate reader xs.length).Decodes (xs.flatMap write) xs := by
  have all := replicate (f := id) xs rfl each
  rwa [List.map_id] at all

/-! ## Bytes and integers -/

theorem take (bs : Bytes) : (take bs.length).Decodes bs bs := by
  intro following
  have enough : bs.length ≤ (bs ++ following).length := by simp
  rw [run_take, if_pos enough, List.take_left, List.drop_left]

theorem fixed (width n : Nat) (small : n < 256 ^ width) :
    (fixed width).Decodes (Bytes.littleEndian width n) n := by
  have bytes := (take (Bytes.littleEndian width n)).map Bytes.ofLittleEndian
  rwa [Bytes.length_littleEndian, Bytes.ofLittleEndian_littleEndian, Nat.mod_eq_of_lt small]
    at bytes

theorem u8 (v : UInt8) : Reader.u8.Decodes (Wire.u8 v) v := by
  have word := (fixed 1 v.toNat v.toNat_lt).map UInt8.ofNat
  rwa [UInt8.ofNat_toNat] at word

theorem u16 (v : UInt16) : Reader.u16.Decodes (Wire.u16 v) v := by
  have word := (fixed 2 v.toNat v.toNat_lt).map UInt16.ofNat
  rwa [UInt16.ofNat_toNat] at word

theorem u32 (v : UInt32) : Reader.u32.Decodes (Wire.u32 v) v := by
  have word := (fixed 4 v.toNat v.toNat_lt).map UInt32.ofNat
  rwa [UInt32.ofNat_toNat] at word

theorem u64 (v : UInt64) : Reader.u64.Decodes (Wire.u64 v) v := by
  have word := (fixed 8 v.toNat v.toNat_lt).map UInt64.ofNat
  rwa [UInt64.ofNat_toNat] at word

theorem i8 (v : Int8) : Reader.i8.Decodes (Wire.i8 v) v := (u8 v.toUInt8).map UInt8.toInt8

theorem i16 (v : Int16) : Reader.i16.Decodes (Wire.i16 v) v := (u16 v.toUInt16).map UInt16.toInt16

theorem i32 (v : Int32) : Reader.i32.Decodes (Wire.i32 v) v := (u32 v.toUInt32).map UInt32.toInt32

theorem i64 (v : Int64) : Reader.i64.Decodes (Wire.i64 v) v := (u64 v.toUInt64).map UInt64.toInt64

theorem bool (v : Bool) : Reader.bool.Decodes (Wire.bool v) v := by
  cases v with
  | false => exact (u8 0).map (· != 0)
  | true => exact (u8 1).map (· != 0)

theorem varint (v : Int64) : Reader.varint.Decodes (Wire.varint v) v := by
  intro following
  rw [Reader.run, Reader.varint, Wire.varint, Varint.decode_encode, ← Varint.length_encode]
  exact congrArg (Prod.mk _) List.drop_left

/-! ## Fields of variable size -/

theorem nullableBytes (bs? : Option Bytes) (small : ∀ bs ∈ bs?, bs.length < 2 ^ 63) :
    Reader.nullableBytes.Decodes (Wire.nullableBytes bs?) (bs?.filter (· ≠ [])) := by
  cases bs? with
  | none =>
    rw [← List.append_nil (Wire.nullableBytes none)]
    exact (varint (-1)).bind fun _ => rfl
  | some bs =>
    have length : (Int64.ofNat bs.length).toInt = bs.length :=
      Int64.toInt_ofNat_of_lt (small bs rfl)
    refine (varint _).bind ?_
    cases bs with
    | nil => exact fun _ => rfl
    | cons b bs =>
      rw [length, if_neg (by simp), Int.toNat_natCast]
      exact (take (b :: bs)).map some

theorem size {n : Nat} (small : n < 2 ^ 31) : Reader.size.Decodes (Wire.i32 (Int32.ofNat n)) n := by
  have length : (Int32.ofNat n).toInt = n := Int32.toInt_ofNat_of_lt small
  intro following
  rw [Reader.size, run_bind_ok (i32 _ following), length, if_neg (by omega), Int.toNat_natCast,
    run_pure]

theorem sizedBytes {bs : Bytes} (small : bs.length < 2 ^ 31) :
    Reader.sizedBytes.Decodes (Wire.sizedBytes bs) bs :=
  (size small).bind (take bs)

theorem text {s : String} (small : s.utf8ByteSize < 2 ^ 31) :
    Reader.text.Decodes (Wire.text s) s := by
  have valid : String.fromUTF8? ⟨s.toUTF8.data.toList.toArray⟩ = some s := dif_pos s.isValidUTF8
  have decodes : Reader.sizedBytes.Decodes (Wire.text s) s.toUTF8.data.toList := sizedBytes small
  intro following
  rw [Reader.text, run_bind_ok (decodes following), valid, run_pure]

theorem optional {write : γ → Bytes} {f : γ → α} (x? : Option γ)
    (present : ∀ x ∈ x?, reader.Decodes (write x) (f x)) :
    (optional reader).Decodes (Wire.optional write x?) (x?.map f) := by
  cases x? with
  | none =>
    rw [Wire.optional, ← List.append_nil (Wire.bool false)]
    exact (bool false).bind fun _ => rfl
  | some x => exact (bool true).bind ((present x rfl).map some)

theorem vector {write : γ → Bytes} {f : γ → α} {xs : List γ} (small : xs.length < 2 ^ 31)
    (each : ∀ x ∈ xs, reader.Decodes (write x) (f x)) :
    (vector reader).Decodes (Wire.vector write xs) (xs.map f) :=
  (size small).bind (replicate xs rfl each)

theorem optional_self {write : α → Bytes} (x? : Option α)
    (present : ∀ x ∈ x?, reader.Decodes (write x) x) :
    (Reader.optional reader).Decodes (Wire.optional write x?) x? := by
  have whole := optional (f := id) x? present
  rwa [Option.map_id] at whole

theorem vector_self {write : α → Bytes} {xs : List α} (small : xs.length < 2 ^ 31)
    (each : ∀ x ∈ xs, reader.Decodes (write x) x) :
    (Reader.vector reader).Decodes (Wire.vector write xs) xs :=
  (size small).bind (replicate_self xs each)

end Decodes

theorem run_u8_cons (b : UInt8) (input : Bytes) : u8.run (b :: input) = (.ok b, input) := by
  have decodes := Decodes.u8 b input
  rwa [Wire.u8_eq, List.singleton_append] at decodes

theorem run_i8_cons (b : UInt8) (input : Bytes) :
    i8.run (b :: input) = (.ok b.toInt8, input) := by
  rw [i8, ← bind_pure_comp, run_bind_ok (run_u8_cons b input), run_pure]

theorem run_bool_cons (b : UInt8) (input : Bytes) :
    bool.run (b :: input) = (.ok (b != 0), input) := by
  rw [bool, ← bind_pure_comp, run_bind_ok (run_u8_cons b input), run_pure]

end Reader
end PartitionLog
