import PartitionLog.RawText

/-!
# Paths

A path is kept as the text it was given, and names of children are appended to that text. Its parts
leave out what does not change the place: repeated slashes, a slash at the end, and dots other than
one in front.
-/
namespace PartitionLog

structure Path where
  text : RawText
  deriving DecidableEq, Repr

namespace Path

inductive Part
  | root
  | here
  | up
  | name (text : RawText)
  deriving DecidableEq, Repr

def Part.text : Part → RawText
  | root => "/"
  | here => "."
  | up => ".."
  | name text => text

def Part.ofField (field : Bytes) : Option Part :=
  if field = [] ∨ field = [dot] then none
  else if field = [dot, dot] then some up
  else some (name ⟨field⟩)

def fields (path : Path) : List Bytes := path.text.bytes.splitOn slash

/-- What a path starts with, other than a name. -/
def startOfFields : List Bytes → List Part
  | [] => []
  | [] :: _ :: _ => [.root]
  | first :: _ => if first = [dot] then [.here] else []

def parts (path : Path) : List Part :=
  startOfFields path.fields ++ path.fields.filterMap Part.ofField

def fileName (path : Path) : Option RawText :=
  match path.parts.getLast? with
  | some (.name text) => some text
  | _ => none

/-- The child of a path; an absolute name stands for itself. -/
def join (path : Path) (name : RawText) : Path :=
  if name.bytes.head? = some slash then ⟨name⟩
  else if path.text.bytes = [] ∨ path.text.bytes.getLast? = some slash then ⟨path.text ++ name⟩
  else ⟨path.text ++ "/" ++ name⟩

def descend (path : Path) (names : List RawText) : Path := names.foldl join path

end Path
end PartitionLog
