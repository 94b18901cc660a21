import PartitionLog.Bytes
import PartitionLog.SortedMap

/-!
# JSON text

Values whose objects keep their fields in order, with a compact and an indented printer. Every
number of the formats is an integer.

The printers write no white space in compact text, and in indented text two spaces for each level,
one space behind a colon, and nothing between the brackets of what is empty. Of the characters they
escape quotes, backslashes and controls only, with the short escape if there is one. Objects built
as maps have their fields sorted by name, in the order of code points.
-/
namespace PartitionLog

inductive Json
  | null
  | bool (value : Bool)
  | num (value : Int)
  | str (value : String)
  | arr (items : List Json)
  | obj (fields : List (String × Json))
  deriving Repr

namespace Json

def ofNat (n : Nat) : Json := num n

def hex (bs : Bytes) : Json := str (Bytes.hex bs)

def ofBytes (bs : Bytes) : Json := arr (bs.map fun b => ofNat b.toNat)

def ofOption {α : Type} (write : α → Json) : Option α → Json
  | none => null
  | some value => write value

def ofList {α : Type} (write : α → Json) (values : List α) : Json := arr (values.map write)

/-! ## Text -/

/-- Control characters without a short escape are written by their code. -/
def escape (c : Char) : List Char :=
  if c = '"' then ['\\', '"']
  else if c = '\\' then ['\\', '\\']
  else if c = '\x08' then ['\\', 'b']
  else if c = '\x0c' then ['\\', 'f']
  else if c = '\n' then ['\\', 'n']
  else if c = '\r' then ['\\', 'r']
  else if c = '\t' then ['\\', 't']
  else if c.toNat < 32 then
    ['\\', 'u', '0', '0', Nat.digitChar (c.toNat / 16), Nat.digitChar (c.toNat % 16)]
  else [c]

def quoted (s : String) : String :=
  "\"" ++ String.ofList (s.toList.flatMap escape) ++ "\""

mutual

def compact : Json → String
  | null => "null"
  | bool value => if value then "true" else "false"
  | num value => value.repr
  | str value => quoted value
  | arr items => "[" ++ ",".intercalate (compactItems items) ++ "]"
  | obj fields => "\x7b" ++ ",".intercalate (compactFields fields) ++ "\x7d"

def compactItems : List Json → List String
  | [] => []
  | item :: items => compact item :: compactItems items

def compactFields : List (String × Json) → List String
  | [] => []
  | (name, value) :: fields => (quoted name ++ ":" ++ compact value) :: compactFields fields

end

def lineBreak (depth : Nat) : String := "\n" ++ String.ofList (List.replicate (2 * depth) ' ')

def enclosed (opening closing : String) (depth : Nat) (items : List String) : String :=
  if items.isEmpty then opening ++ closing
  else
    let lines := items.map fun item => lineBreak (depth + 1) ++ item
    opening ++ ",".intercalate lines ++ lineBreak depth ++ closing

mutual

def indentedAt : Nat → Json → String
  | _, null => "null"
  | _, bool value => if value then "true" else "false"
  | _, num value => value.repr
  | _, str value => quoted value
  | depth, arr items => enclosed "[" "]" depth (indentedItems (depth + 1) items)
  | depth, obj fields => enclosed "\x7b" "\x7d" depth (indentedFields (depth + 1) fields)

def indentedItems : Nat → List Json → List String
  | _, [] => []
  | depth, item :: items => indentedAt depth item :: indentedItems depth items

def indentedFields : Nat → List (String × Json) → List String
  | _, [] => []
  | depth, (name, value) :: fields =>
    (quoted name ++ ": " ++ indentedAt depth value) :: indentedFields depth fields

end

def indented (value : Json) : String := indentedAt 0 value

/-! ## Sorted fields -/

mutual

def sorted : Json → Json
  | arr items => arr (sortedItems items)
  | obj fields => obj (sortedFields [] fields)
  | null => null
  | bool value => bool value
  | num value => num value
  | str value => str value

def sortedItems : List Json → List Json
  | [] => []
  | item :: items => sorted item :: sortedItems items

/-- Of two fields of one name the later one stays. -/
def sortedFields : SortedMap String Json → List (String × Json) → SortedMap String Json
  | done, [] => done
  | done, (name, value) :: fields => sortedFields (SortedMap.insert name (sorted value) done) fields

end

end Json
end PartitionLog
