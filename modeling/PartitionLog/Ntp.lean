import PartitionLog.Decimal
import PartitionLog.Reader
import PartitionLog.Wire

/-!
# Partition identity

A partition is named by namespace, topic and partition number: as text `namespace/topic/partition`,
and in keys as two sized texts and a 32-bit number.
-/
namespace PartitionLog

structure Ntp where
  ns : String
  topic : String
  partition : Int32
  deriving DecidableEq, Repr

inductive NtpError
  | wrongShape (text : String)
  | invalidPartition (text : String)
  deriving DecidableEq, Repr

def NtpError.message : NtpError → String
  | wrongShape text => "Expected namespace/topic/partition, got '" ++ text ++ "'"
  | invalidPartition text => "Invalid partition id: '" ++ text ++ "'"

namespace Ntp

def toString (ntp : Ntp) : String :=
  ntp.ns ++ "/" ++ ntp.topic ++ "/" ++ ntp.partition.toInt.repr

def ofString (s : String) : Except NtpError Ntp :=
  match s.toList.splitOn '/' with
  | [ns, topic, partition] =>
    if ns = [] ∨ topic = [] then .error (.wrongShape s)
    else
      match Decimal.int32 partition with
      | some n => .ok ⟨String.ofList ns, String.ofList topic, n⟩
      | none => .error (.invalidPartition (String.ofList partition))
  | _ => .error (.wrongShape s)

def read : Reader Ntp := do
  let ns ← Reader.text
  let topic ← Reader.text
  let partition ← Reader.i32
  pure ⟨ns, topic, partition⟩

def write (ntp : Ntp) : Bytes :=
  Wire.text ntp.ns ++ Wire.text ntp.topic ++ Wire.i32 ntp.partition

def compare (a b : Ntp) : Ordering :=
  (Ord.compare a.ns b.ns).then
    ((Ord.compare a.topic b.topic).then (Ord.compare a.partition.toInt b.partition.toInt))

end Ntp
end PartitionLog
