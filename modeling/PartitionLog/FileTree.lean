import PartitionLog.ByteStream
import PartitionLog.FileTree.Place
import PartitionLog.Path

/-!
# File trees

What a run sees of the file system is one tree of directories and files, mounted at a path. Away
from the mount there is one empty directory. A directory opens as a file does, but gives no bytes.
To list it is another matter, and the system may refuse that for any directory.
-/
namespace PartitionLog

/-- Behind so many entries, a listing breaks off. -/
structure ReadFailure where
  after : Nat
  cause : IoError
  deriving DecidableEq, Repr

/-- Lists one more entry. -/
def ReadFailure.next : Option ReadFailure → Except IoError (Option ReadFailure)
  | none => .ok none
  | some ⟨0, e⟩ => .error e
  | some ⟨after + 1, e⟩ => .ok (some ⟨after, e⟩)

structure FileTree where
  mount : Path
  /-- What is at the mount, if anything can be seen there. -/
  root : Except IoError FileNode
  /-- The directories whose listing breaks off. -/
  failing : Path → Option ReadFailure := fun _ => none

namespace FileTree

/-- The bytes that a path and the mark of its end have to fit in. -/
def pathLimit : Nat := 4096

/-- Some paths are refused for their text, before anything is looked up. -/
def accept (path : Path) : Except IoError Unit :=
  if 0 ∈ path.text.bytes then .error .invalidName
  else if path.text.bytes = [] then .error .notFound
  else if pathLimit ≤ path.text.bytes.length then .error .nameTooLong
  else .ok ()

def fieldsBelow (mount text : Bytes) : Option (List Bytes) :=
  if mount.isPrefixOf text then
    match text.drop mount.length with
    | [] => some []
    | first :: rest =>
      if first = slash then some (rest.splitOn slash)
      else if mount.getLast? = some slash then some ((first :: rest).splitOn slash)
      else none
  else none

def fields? (tree : FileTree) (path : Path) : Option (List Bytes) :=
  fieldsBelow tree.mount.text.bytes path.text.bytes

def top (tree : FileTree) : Except IoError Place := do
  pure { node := ← tree.root }

/-! ## Reading -/

def lookup (tree : FileTree) (path : Path) : Except IoError FileNode := do
  accept path
  let place ← match tree.fields? path with
    | some fields => do (← tree.top).walk (.error .notFound) fields
    | none => Place.walk (.error .notFound) { node := .dir [] } path.fields
  pure place.node

/-- The children of a directory, in no order to rely on. -/
def readDir (tree : FileTree) (path : Path) : Except IoError (List (RawText × FileNode)) := do
  match ← tree.lookup path with
  | .dir entries =>
    match tree.failing path with
    | none => pure entries
    | some failure => .error failure.cause
  | .file _ => .error .notADirectory

/-- What keeps a directory from being listed, if it is there. -/
def readFailure? (tree : FileTree) (path : Path) : Option ReadFailure :=
  match accept path with
  | .ok _ => tree.failing path
  | .error e => some ⟨0, e⟩

def fileContents (tree : FileTree) (path : Path) : Except IoError Bytes := do
  match ← tree.lookup path with
  | .file contents => pure contents
  | .dir _ => .error .isADirectory

/-- A directory opens too, and fails on the first read. -/
def openFile (tree : FileTree) (path : Path) : Except IoError ByteStream := do
  match ← tree.lookup path with
  | .file contents => pure (.ofBytes contents)
  | .dir _ => pure [.failed .isADirectory]

/-! ## Changes -/

def changeableFields (tree : FileTree) (path : Path) : Except IoError (List Bytes) := do
  accept path
  match tree.fields? path with
  | some fields => pure fields
  | none => .error .notFound

/-- Makes every directory that is missing on the way, even if the way leaves it again. -/
def makeDirs (tree : FileTree) (path : Path) : Except IoError FileTree := do
  let fields ← tree.changeableFields path
  let place ← (← tree.top).walk (.ok (.dir [])) fields
  match place.node with
  | .dir _ => pure { tree with root := .ok place.root }
  | .file _ => .error .alreadyExists

/-- Writes a file, new or not, into a directory that is there. A name with a slash behind it is
not looked at, since no file has such a name. -/
def putFile (tree : FileTree) (path : Path) (contents : Bytes) : Except IoError FileTree := do
  let fields ← tree.changeableFields path
  let named := (fields.reverse.dropWhile List.isEmpty).reverse
  let dir ← (← tree.top).walk (.error .notFound) named.dropLast
  let place ← dir.walk (.ok (.file [])) (if named = fields then named.getLast?.toList else [[]])
  match place.node with
  | .dir _ => .error .isADirectory
  | .file _ => pure { tree with root := .ok { place with node := .file contents }.root }

end FileTree
end PartitionLog
