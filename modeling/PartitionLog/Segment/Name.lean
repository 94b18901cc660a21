import PartitionLog.Decimal
import PartitionLog.Json

/-!
# Names of segment files

A segment file is named by the offset of its first batch, the term it was opened in and the version
of its format: `<offset>-<term>-v<version>.log`.
-/
namespace PartitionLog

structure SegmentName where
  baseOffset : UInt64
  term : UInt64
  version : UInt32
  deriving DecidableEq, Repr

namespace SegmentName

def stem (name : List Char) : Option (List Char) :=
  match name.reverse with
  | 'g' :: 'o' :: 'l' :: '.' :: stem => some stem.reverse
  | _ => none

def ofFields : List (List Char) → Option SegmentName
  | [offset, term, 'v' :: version] => do
    let offset ← Decimal.digitsBelow UInt64.size offset
    let term ← Decimal.digitsBelow UInt64.size term
    let version ← Decimal.digitsBelow UInt32.size version
    pure ⟨UInt64.ofNat offset, UInt64.ofNat term, UInt32.ofNat version⟩
  | _ => none

def ofString (name : String) : Option SegmentName := do
  ofFields ((← stem name.toList).splitOn '-')

def toString (name : SegmentName) : String :=
  name.baseOffset.toNat.repr ++ "-" ++ name.term.toNat.repr ++ "-v" ++ name.version.toNat.repr ++
    ".log"

def le (a b : SegmentName) : Bool :=
  a.baseOffset < b.baseOffset ∨ (a.baseOffset = b.baseOffset ∧ a.term ≤ b.term)

end SegmentName
end PartitionLog
