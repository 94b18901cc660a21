import PartitionLog.Ntp
import PartitionLog.Segment.File

/-!
# Partition directories

A partition lives in `<namespace>/<topic>/<partition>_<revision>`, a directory of segment files and
perhaps a snapshot. Its segments are listed in replay order.
-/
namespace PartitionLog

structure Partition where
  ntp : Ntp
  revision : Int64
  path : Path
  segments : List Segment
  snapshot : Option Path
  deriving DecidableEq, Repr

inductive LayoutError
  | io (cause : IoError)
  | notADirectory (path : Path)
  | unrecognizedLayout (path : Path)
  deriving DecidableEq, Repr

namespace LayoutError

def message : LayoutError → String
  | io cause => "I/O error: " ++ cause.message
  | notADirectory path => "Not a directory: " ++ path.text.shown
  | unrecognizedLayout path => "Not a partition directory: " ++ path.text.shown

def causes : LayoutError → List String
  | io cause => [cause.message]
  | _ => []

end LayoutError

namespace Partition

def snapshotName : String := "snapshot"

def directoryName (partition : Int32) (revision : Int64) : String :=
  partition.toInt.repr ++ "_" ++ revision.toInt.repr

def ofDirectoryName (name : String) : Option (Int32 × Int64) :=
  match name.toList.dropWhile (· ≠ '_') with
  | [] => none
  | _ :: revision => do
    let partition ← Decimal.int32 (name.toList.takeWhile (· ≠ '_'))
    let revision ← Decimal.int64 revision
    pure (partition, revision)

def segmentNames (files : List String) : List String :=
  let named := files.filterMap fun name => (SegmentName.ofString name).map (·, name)
  (named.mergeSort fun a b => a.1.le b.1).map Prod.snd

/-- The names of files, as far as they are text. -/
def fileNames (entries : List (RawText × FileNode)) : List String :=
  (entries.filter fun entry => entry.2.isFile).filterMap fun entry => entry.1.text?

def ofEntries (ntp : Ntp) (revision : Int64) (path : Path) (entries : List (RawText × FileNode)) :
    Partition where
  ntp := ntp
  revision := revision
  path := path
  segments := (segmentNames (fileNames entries)).map fun (name : String) => ⟨path.join name⟩
  snapshot :=
    if snapshotName ∈ fileNames entries then some (path.join snapshotName) else none

def load (tree : FileTree) (ntp : Ntp) (revision : Int64) (path : Path) :
    Except LayoutError Partition := do
  let entries ← (tree.readDir path).mapError .io
  pure (ofEntries ntp revision path entries)

def identify : List String → Option (Ntp × Int64)
  | [dir, topic, ns] => do
    let (partition, revision) ← ofDirectoryName dir
    pure (⟨ns, topic, partition⟩, revision)
  | _ => none

def openAt (tree : FileTree) (path : Path) : Except LayoutError Partition :=
  match identify ((path.parts.reverse.take 3).filterMap fun part => part.text.text?) with
  | none => .error (.unrecognizedLayout path)
  | some (ntp, revision) => load tree ntp revision path

def files (p : Partition) : List Path := p.snapshot.toList ++ p.segments.map Segment.path

def displayName (p : Partition) : String :=
  p.ntp.ns ++ "/" ++ p.ntp.topic ++ "/" ++ directoryName p.ntp.partition p.revision

def le (a b : Partition) : Bool :=
  ((a.ntp.compare b.ntp).then (compare a.revision.toInt b.revision.toInt)).isLE

end Partition
end PartitionLog
