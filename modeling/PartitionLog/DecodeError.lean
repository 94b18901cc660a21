/-!
# Structural decoding failures

Every decoder reports a malformed field through `DecodeError`. Whether a truncation is fatal is
for the caller to say: at a batch boundary it ends the data, inside a record it does not.
-/
namespace PartitionLog

inductive DecodeError
  | truncated (needed available : Nat)
  | varintOverflow
  | negativeLength (length : Int)
  | invalidUtf8
  deriving DecidableEq, Repr

namespace DecodeError

def isTruncated : DecodeError → Bool
  | truncated .. => true
  | _ => false

def message : DecodeError → String
  | truncated needed available =>
    "Truncated input: needed " ++ needed.repr ++ " bytes, " ++ available.repr ++ " available"
  | varintOverflow => "Varint does not fit in 64 bits"
  | negativeLength length => "Negative length prefix: " ++ length.repr
  | invalidUtf8 => "Invalid UTF-8 in string field"

end DecodeError
end PartitionLog
