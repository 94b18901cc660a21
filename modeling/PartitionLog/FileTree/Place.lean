import PartitionLog.IoError
import PartitionLog.RawText

/-!
# Places in a tree of files

A place is a node and the way up from it: the name taken in each directory above, nearest first,
with the entries of that directory. A walk goes from place to place, field by field: an empty field
and a dot stay, two dots go up, and a name goes down. Only a directory lets a walk go on, whatever
the next field is, and the top stands above itself.
-/
namespace PartitionLog

inductive FileNode
  | file (contents : Bytes)
  | dir (entries : List (RawText × FileNode))
  deriving Repr

namespace FileNode

def isDir : FileNode → Bool
  | file _ => false
  | dir _ => true

def isFile : FileNode → Bool
  | file _ => true
  | dir _ => false

/-- An entry of the same name gives its place to the new one. -/
def put (name : RawText) (node : FileNode) : List (RawText × FileNode) → List (RawText × FileNode)
  | [] => [(name, node)]
  | (name', node') :: entries =>
    if name = name' then (name, node) :: entries else (name', node') :: put name node entries

def nameLimit : Nat := 255

def child (missing : Except IoError FileNode) (entries : List (RawText × FileNode))
    (name : RawText) : Except IoError FileNode :=
  if nameLimit < name.bytes.length then .error .nameTooLong
  else
    match entries.lookup name with
    | some node => .ok node
    | none => missing

end FileNode

structure Place where
  node : FileNode
  above : List (RawText × List (RawText × FileNode)) := []
  deriving Repr

namespace Place

def up (place : Place) : Place :=
  match place.above with
  | [] => place
  | (name, entries) :: above => ⟨.dir (FileNode.put name place.node entries), above⟩

def root (place : Place) : FileNode :=
  place.above.foldl (fun node level => .dir (FileNode.put level.1 node level.2)) place.node

/-- Follows one field, where `missing` stands for an entry that is not there. -/
def step (missing : Except IoError FileNode) (place : Place) (field : Bytes) :
    Except IoError Place :=
  match place.node with
  | .file _ => .error .notADirectory
  | .dir entries =>
    if field = [] ∨ field = [dot] then .ok place
    else if field = [dot, dot] then .ok place.up
    else do
      let node ← FileNode.child missing entries ⟨field⟩
      pure ⟨node, (⟨field⟩, entries) :: place.above⟩

def walk (missing : Except IoError FileNode) (place : Place) (fields : List Bytes) :
    Except IoError Place :=
  fields.foldlM (step missing) place

end Place
end PartitionLog
