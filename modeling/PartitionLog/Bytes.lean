/-!
# Byte strings

A byte string is a list of bytes. Fixed-width integers are laid out lowest byte first, and a
checksum that covers the big-endian form of a header field reverses that. The bytes of a number
determine it: `littleEndian_ofLittleEndian`.
-/
namespace PartitionLog

abbrev Bytes := List UInt8

namespace Bytes

def littleEndian : Nat → Nat → Bytes
  | 0, _ => []
  | width + 1, n => UInt8.ofNat n :: littleEndian width (n / 256)

def ofLittleEndian : Bytes → Nat
  | [] => 0
  | b :: bs => b.toNat + 256 * ofLittleEndian bs

def bigEndian (width n : Nat) : Bytes := (littleEndian width n).reverse

@[simp] theorem length_littleEndian (width n : Nat) : (littleEndian width n).length = width := by
  induction width generalizing n with
  | zero => rfl
  | succ width ih => simp [littleEndian, ih]

@[simp] theorem length_bigEndian (width n : Nat) : (bigEndian width n).length = width := by
  simp [bigEndian]

theorem littleEndian_ofLittleEndian (bs : Bytes) :
    littleEndian bs.length (ofLittleEndian bs) = bs := by
  induction bs with
  | nil => rfl
  | cons b bs ih =>
    have hb : b.toNat < 256 := b.toNat_lt
    have low : UInt8.ofNat (b.toNat + 256 * ofLittleEndian bs) = b := by
      apply UInt8.toNat_inj.mp
      rw [UInt8.toNat_ofNat']
      omega
    have high : (b.toNat + 256 * ofLittleEndian bs) / 256 = ofLittleEndian bs := by omega
    rw [List.length_cons, ofLittleEndian, littleEndian, low, high, ih]

/-- The buffer with `field` written over what stands from `start` on. -/
def put : Nat → Bytes → Bytes → Bytes
  | 0, field, buffer => field ++ buffer.drop field.length
  | start + 1, field, b :: buffer => b :: put start field buffer
  | _ + 1, _, [] => []

theorem put_replicate {front field : Bytes} {b : UInt8} {start room : Nat}
    (here : front.length = start) :
    put start field (front ++ List.replicate room b) =
      front ++ field ++ List.replicate (room - field.length) b := by
  subst here
  induction front with
  | nil => rw [List.length_nil, List.nil_append, put, List.drop_replicate, List.nil_append]
  | cons b' front ih => rw [List.length_cons, List.cons_append, put, ih, List.cons_append,
      List.cons_append]

theorem put_zero_replicate {field : Bytes} {b : UInt8} {room : Nat} :
    put 0 field (List.replicate room b) = field ++ List.replicate (room - field.length) b :=
  put_replicate (Eq.refl ([] : Bytes).length)

def hex (bs : Bytes) : String :=
  String.ofList (bs.flatMap fun b => [Nat.digitChar (b.toNat / 16), Nat.digitChar (b.toNat % 16)])

/-- A checksum in messages: `0x` and eight hexadecimal digits. -/
def hexWord (word : UInt32) : String :=
  "0x" ++ hex (bigEndian 4 word.toNat)

end Bytes
end PartitionLog
