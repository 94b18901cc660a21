import PartitionLog.Bytes

/-!
# CRC-32C

The Castagnoli checksum over bytes, lowest bit first. `Checksum.extend` continues a checksum over
more bytes.
-/
namespace PartitionLog.Checksum

/-- The generator without its leading term, lowest bit for the highest power. -/
def polynomial : UInt32 := 0x82F63B78

def shiftOut (remainder : UInt32) : UInt32 :=
  if remainder &&& 1 = 1 then (remainder >>> 1) ^^^ polynomial else remainder >>> 1

def shiftsOut : Nat → UInt32 → UInt32
  | 0, remainder => remainder
  | n + 1, remainder => shiftsOut n (shiftOut remainder)

def absorb (remainder : UInt32) (byte : UInt8) : UInt32 :=
  shiftsOut 8 (remainder ^^^ byte.toUInt32)

/-- The checksum of the bytes behind `checksum` followed by `bs`. -/
def extend (checksum : UInt32) (bs : Bytes) : UInt32 :=
  ~~~(bs.foldl absorb (~~~checksum))

def crc32c (bs : Bytes) : UInt32 := extend 0 bs

end PartitionLog.Checksum
