import PartitionLog.FileTree
import PartitionLog.Segment.Cursor
import PartitionLog.Segment.Name

/-!
# Segment files

A segment is the path of its file. The file is opened when its batches are asked for.
-/
namespace PartitionLog

structure Segment where
  path : Path
  deriving DecidableEq, Repr

namespace Segment

def name? (segment : Segment) : Option SegmentName :=
  (segment.path.fileName.bind RawText.text?).bind SegmentName.ofString

def batches (segment : Segment) (tree : FileTree) (config : ReaderConfig) :
    Except IoError BatchCursor := do
  let stream ← tree.openFile segment.path
  pure { config, stream }

def readAll (segment : Segment) (tree : FileTree) (config : ReaderConfig) :
    Except BatchError (List Batch) := do
  let cursor ← (segment.batches tree config).mapError .io
  cursor.readAll

end Segment
end PartitionLog
