import PartitionLog.Partition.Basic
import PartitionLog.ReaderConfig

/-!
# Discovery of partitions

Under a data directory, a partition is a directory with three names of text on the way to it, the
last one of the right form, and no directory in it. Excluded names are passed over with everything
below them. The first directory that cannot be listed to the end ends the walk.
-/
namespace PartitionLog

/-- A directory that a scan comes to: the names on the way down, and what it holds. -/
structure VisitedDir where
  names : List RawText
  entries : List (RawText × FileNode)

namespace VisitedDir

def below (name : RawText) (visited : VisitedDir) : VisitedDir :=
  { visited with names := name :: visited.names }

def isLeaf (visited : VisitedDir) : Bool := visited.entries.all fun entry => !entry.2.isDir

def path (base : Path) (visited : VisitedDir) : Path := base.descend visited.names

/-- Names that are no text do not count. -/
def partition? (base : Path) (visited : VisitedDir) : Option Partition :=
  (Partition.identify (visited.names.filterMap RawText.text?).reverse).map fun (ntp, revision) =>
    .ofEntries ntp revision (visited.path base) visited.entries

end VisitedDir

namespace FileNode

section

variable (failure? : Path → Option ReadFailure) (excluded : RawText → Bool)

mutual

/-- Lists a directory and those below it, each before the ones in it. -/
def walk (path : Path) : FileNode → Except IoError (List VisitedDir)
  | file _ => pure []
  | dir entries => do
    let below ← walkBelow path (failure? path) entries
    pure (⟨[], entries⟩ :: below)

/-- Goes through the entries of a directory that are still to be listed. -/
def walkBelow (path : Path) (failure : Option ReadFailure) :
    List (RawText × FileNode) → Except IoError (List VisitedDir)
  | [] =>
    match failure with
    | none => pure []
    | some failure => .error failure.cause
  | (name, node) :: entries => do
    let later ← ReadFailure.next failure
    let first ← (if excluded name then pure [] else walk (path.join name) node)
    let rest ← walkBelow path later entries
    pure (first.map (.below name) ++ rest)

end

end

end FileNode

structure DataDir where
  base : Path
  partitions : List Partition
  deriving DecidableEq, Repr

namespace DataDir

/-- All partitions below a directory, unless a directory on the way cannot be listed. -/
def scan (tree : FileTree) (config : ReaderConfig) (base : Path) : Except LayoutError DataDir :=
  match tree.lookup base with
  | .ok (.dir entries) => do
    let visited ←
      ((FileNode.dir entries).walk tree.readFailure? config.passesOver base).mapError .io
    let found := (visited.filter VisitedDir.isLeaf).filterMap (VisitedDir.partition? base)
    pure ⟨base, found.mergeSort Partition.le⟩
  | _ => .error (.notADirectory base)

def find (data : DataDir) (ntp : Ntp) : List Partition :=
  data.partitions.filter fun p => p.ntp = ntp

def topic (data : DataDir) (ns topic : String) : List Partition :=
  data.partitions.filter fun p => p.ntp.ns = ns ∧ p.ntp.topic = topic

end DataDir
end PartitionLog
