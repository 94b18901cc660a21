import PartitionLog.Reader
import PartitionLog.Wire

/-!
# Virtual nodes

A member of a consensus group: a node in one of its incarnations.
-/
namespace PartitionLog

structure Vnode where
  id : Int32
  revision : Int64
  deriving DecidableEq, Repr

namespace Vnode

def read : Reader Vnode := do
  let id ← Reader.i32
  let revision ← Reader.i64
  pure ⟨id, revision⟩

def write (node : Vnode) : Bytes := Wire.i32 node.id ++ Wire.i64 node.revision

end Vnode
end PartitionLog
