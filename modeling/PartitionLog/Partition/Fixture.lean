import PartitionLog.Partition.Basic
import PartitionLog.Snapshot

/-!
# Making partition directories

Directories, segment files and snapshots as the readers expect them.
-/
namespace PartitionLog

def Segment.write (batches : List Batch) : Bytes := batches.flatMap Batch.write

namespace Partition

def directory (base : Path) (ntp : Ntp) (revision : Int64) : Path :=
  base.descend [ntp.ns, ntp.topic, directoryName ntp.partition revision]

def create (tree : FileTree) (base : Path) (ntp : Ntp) (revision : Int64) :
    Except IoError FileTree :=
  tree.makeDirs (directory base ntp revision)

def writeSegment (tree : FileTree) (dir : Path) (name : String) (batches : List Batch) :
    Except IoError FileTree :=
  tree.putFile (dir.join name) (Segment.write batches)

def writeSnapshot (tree : FileTree) (dir : Path) (snapshot : Snapshot) : Except IoError FileTree :=
  tree.putFile (dir.join snapshotName) snapshot.write

end Partition
end PartitionLog
