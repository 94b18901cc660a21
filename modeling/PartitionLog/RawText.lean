import PartitionLog.Bytes

/-!
# Text of the file system

Names and paths are bytes, and nothing makes them UTF-8. What a text is written as reads back as
that text (`text?_ofString`), and other bytes have no text. To be shown, they get replacement
characters.
-/
namespace PartitionLog

abbrev slash : UInt8 := 0x2f

abbrev dot : UInt8 := 0x2e

@[ext]
structure RawText where
  bytes : Bytes
  deriving DecidableEq, Repr

namespace RawText

def ofString (s : String) : RawText := ⟨s.toUTF8.data.toList⟩

instance : Coe String RawText := ⟨ofString⟩

instance : Append RawText := ⟨fun a b => ⟨a.bytes ++ b.bytes⟩⟩

def text? (raw : RawText) : Option String := String.fromUTF8? ⟨raw.bytes.toArray⟩

@[simp] theorem text?_ofString (s : String) : (ofString s).text? = some s := dif_pos s.isValidUTF8

/-! ## Showing -/

def firstChar? (bytes : Bytes) : Option Char := ByteArray.utf8DecodeChar? ⟨bytes.toArray⟩ 0

/-- Whether the first `n` bytes are those that a longer character starts with. -/
def startsChar (bytes : Bytes) (n : Nat) : Bool :=
  n ≤ bytes.length && (firstChar? (bytes.take n ++ List.replicate (4 - n) 0x80)).isSome

/-- The bytes that are passed over together where there is no character. -/
def strayLength (bytes : Bytes) : Nat :=
  if startsChar bytes 3 then 3 else if startsChar bytes 2 then 2 else 1

def charsWithin : Nat → Bytes → List Char
  | 0, _ => []
  | _, [] => []
  | fuel + 1, bytes =>
    match firstChar? bytes with
    | some c => c :: charsWithin fuel (bytes.drop c.utf8Size)
    | none => '\ufffd' :: charsWithin fuel (bytes.drop (strayLength bytes))

def shown (raw : RawText) : String := String.ofList (charsWithin raw.bytes.length raw.bytes)

end RawText
end PartitionLog
