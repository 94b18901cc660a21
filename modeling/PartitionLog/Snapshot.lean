import PartitionLog.Checksum
import PartitionLog.IoError
import PartitionLog.Reader
import PartitionLog.Wire

/-!
# Snapshot files

A snapshot file is a header of 13 bytes (two checksums, a version and the size of the metadata),
the metadata, and data up to the end. Reading a snapshot does not look at the checksums; `verify`
does.
-/
namespace PartitionLog

structure SnapshotHeader where
  headerCrc : UInt32
  metadataCrc : UInt32
  version : Int8
  metadataSize : Int32
  deriving DecidableEq, Repr

structure Snapshot where
  header : SnapshotHeader
  metadata : Bytes
  data : Bytes
  deriving DecidableEq, Repr

inductive SnapshotError
  | io (cause : IoError)
  | fileTooSmall (size : Nat)
  | invalidMetadataSize (size : Int32)
  | malformed (cause : DecodeError)
  | headerCrcMismatch (stored computed : UInt32)
  | metadataCrcMismatch (stored computed : UInt32)
  deriving DecidableEq, Repr

namespace SnapshotError

def message : SnapshotError → String
  | io cause => "I/O error: " ++ cause.message
  | fileTooSmall size => "Snapshot too small: " ++ size.repr ++ " bytes"
  | invalidMetadataSize size => "Invalid snapshot metadata size " ++ size.toInt.repr
  | malformed cause => "Malformed snapshot: " ++ cause.message
  | headerCrcMismatch stored computed =>
    "Snapshot header crc mismatch: stored=" ++ Bytes.hexWord stored ++ ", computed=" ++
      Bytes.hexWord computed
  | metadataCrcMismatch stored computed =>
    "Snapshot metadata crc mismatch: stored=" ++ Bytes.hexWord stored ++ ", computed=" ++
      Bytes.hexWord computed

def causes : SnapshotError → List String
  | io cause => [cause.message]
  | malformed cause => [cause.message]
  | _ => []

end SnapshotError

namespace SnapshotHeader

def size : Nat := 13

def read : Reader SnapshotHeader := do
  let headerCrc ← Reader.u32
  let metadataCrc ← Reader.u32
  let version ← Reader.i8
  let metadataSize ← Reader.i32
  pure { headerCrc, metadataCrc, version, metadataSize }

def checkedBytes (h : SnapshotHeader) : Bytes :=
  Wire.u32 h.metadataCrc ++ Wire.i8 h.version ++ Wire.i32 h.metadataSize

def write (h : SnapshotHeader) : Bytes := Wire.u32 h.headerCrc ++ h.checkedBytes

@[simp] theorem length_write (h : SnapshotHeader) : h.write.length = size := by
  simp [write, checkedBytes, Wire.i32, Wire.i8, Wire.u32, Wire.u8, size]

def computedHeaderCrc (h : SnapshotHeader) : UInt32 := Checksum.crc32c h.checkedBytes

end SnapshotHeader

namespace Snapshot

def make (version : Int8) (metadata data : Bytes) : Snapshot :=
  let header : SnapshotHeader :=
    ⟨0, Checksum.crc32c metadata, version, Int32.ofNat metadata.length⟩
  ⟨{ header with headerCrc := header.computedHeaderCrc }, metadata, data⟩

def readBody (header : SnapshotHeader) : Reader Snapshot := do
  let metadata ← Reader.take header.metadataSize.toInt.toNat
  let data ← Reader.rest
  pure ⟨header, metadata, data⟩

def ofBytes (bytes : Bytes) : Except SnapshotError Snapshot :=
  match SnapshotHeader.read.run bytes with
  | (.error _, _) => .error (.fileTooSmall bytes.length)
  | (.ok header, rest) =>
    if header.metadataSize.toInt < 0 then .error (.invalidMetadataSize header.metadataSize)
    else ((readBody header).run rest).1.mapError .malformed

def write (snapshot : Snapshot) : Bytes :=
  snapshot.header.write ++ snapshot.metadata ++ snapshot.data

def verify (snapshot : Snapshot) : Except SnapshotError Unit :=
  if snapshot.header.computedHeaderCrc ≠ snapshot.header.headerCrc then
    .error (.headerCrcMismatch snapshot.header.headerCrc snapshot.header.computedHeaderCrc)
  else if Checksum.crc32c snapshot.metadata ≠ snapshot.header.metadataCrc then
    .error (.metadataCrcMismatch snapshot.header.metadataCrc (Checksum.crc32c snapshot.metadata))
  else .ok ()

end Snapshot
end PartitionLog
