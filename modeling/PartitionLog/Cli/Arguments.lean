import PartitionLog.Decimal

/-!
# Command lines

A command line is options, the name of a command, and the options and the operand of that command.
The options that every command knows may stand before or behind its name; behind it a value takes
precedence. An option is given once on each side. Everything behind `--` is an operand.
-/
namespace PartitionLog.Cli

inductive Command
  | ntps (dir : String)
  | segment (file : String) (records : Bool)
  | kvstore (dir : String) (ntp : Option String)
  deriving DecidableEq, Repr

structure Invocation where
  command : Command
  json : Bool
  strict : Bool
  maxBatchSize : Option Nat
  deriving DecidableEq, Repr

inductive UsageError
  | noCommand
  | unknownCommand (name : String)
  | unknownOption (text : String)
  | repeatedOption (name : String)
  | unexpectedValue (name : String)
  | missingValue (name : String)
  | invalidNumber (text : String)
  | missingOperand
  | unexpectedOperand (text : String)
  deriving DecidableEq, Repr

def UsageError.message : UsageError → String
  | noCommand => "no command given"
  | unknownCommand name => "unknown command '" ++ name ++ "'"
  | unknownOption text => "unknown option '" ++ text ++ "'"
  | repeatedOption name => "option '--" ++ name ++ "' given twice"
  | unexpectedValue name => "option '--" ++ name ++ "' takes no value"
  | missingValue name => "option '--" ++ name ++ "' needs a value"
  | invalidNumber text => "not a number: '" ++ text ++ "'"
  | missingOperand => "operand missing"
  | unexpectedOperand text => "unexpected operand '" ++ text ++ "'"

/-! ## Single arguments -/

inductive Argument
  | long (name : String) (value : Option String)
  | short
  | escape
  | operand
  deriving DecidableEq, Repr

/-- A lone dash is an operand. -/
def Argument.ofString (text : String) : Argument :=
  match text.toList with
  | ['-', '-'] => .escape
  | '-' :: '-' :: text =>
    let name := String.ofList (text.takeWhile (· ≠ '='))
    match text.dropWhile (· ≠ '=') with
    | [] => .long name none
    | _ :: value => .long name (some (String.ofList value))
  | '-' :: _ :: _ => .short
  | _ => .operand

/-! ## One side of the command name -/

structure Grammar where
  flags : List String
  valued : List String

structure Given where
  flags : List String := []
  values : List (String × String) := []
  operands : List String := []
  deriving DecidableEq, Repr

namespace Given

def has (given : Given) (name : String) : Bool :=
  given.flags.contains name || (given.values.lookup name).isSome

def addFlag (given : Given) (name : String) : Given :=
  { given with flags := name :: given.flags }

def addValue (given : Given) (name value : String) : Given :=
  { given with values := (name, value) :: given.values }

def addOperand (given : Given) (text : String) : Given :=
  { given with operands := given.operands ++ [text] }

end Given

/-- Reads arguments up to the end or, with `single`, up to the first operand. -/
def scan (grammar : Grammar) (single : Bool) :
    Given → List String → Except UsageError (Given × List String)
  | given, [] => .ok (given, [])
  | given, arg :: args =>
    match Argument.ofString arg with
    | .escape => .ok ({ given with operands := given.operands ++ args }, [])
    | .short => .error (.unknownOption arg)
    | .operand =>
      if single then .ok (given, arg :: args) else scan grammar single (given.addOperand arg) args
    | .long name value =>
      if given.has name then .error (.repeatedOption name)
      else if grammar.flags.contains name then
        match value with
        | some _ => .error (.unexpectedValue name)
        | none => scan grammar single (given.addFlag name) args
      else if grammar.valued.contains name then
        match value, args with
        | some value, args => scan grammar single (given.addValue name value) args
        | none, [] => .error (.missingValue name)
        | none, value :: args =>
          if Argument.ofString value = .operand then
            scan grammar single (given.addValue name value) args
          else .error (.missingValue name)
      else .error (.unknownOption arg)

/-! ## The whole line -/

def commonOptions : Grammar := ⟨["json", "strict"], ["max-batch-size"]⟩

def commandOptions : String → Option Grammar
  | "ntps" => some commonOptions
  | "segment" => some { commonOptions with flags := "records" :: commonOptions.flags }
  | "kvstore" => some { commonOptions with valued := "ntp" :: commonOptions.valued }
  | _ => none

def Given.operand (given : Given) : Except UsageError String :=
  match given.operands with
  | [] => .error .missingOperand
  | [text] => .ok text
  | _ :: text :: _ => .error (.unexpectedOperand text)

def Given.maxBatchSize (given : Given) : Except UsageError (Option Nat) :=
  match given.values.lookup "max-batch-size" with
  | none => .ok none
  | some text =>
    match Decimal.word64 text.toList with
    | some n => .ok (some n)
    | none => .error (.invalidNumber text)

def Command.ofGiven (name : String) (given : Given) : Except UsageError Command := do
  let operand ← given.operand
  match name with
  | "ntps" => pure (.ntps operand)
  | "segment" => pure (.segment operand (given.has "records"))
  | "kvstore" => pure (.kvstore operand (given.values.lookup "ntp"))
  | _ => .error (.unknownCommand name)

def Invocation.ofArguments (args : List String) : Except UsageError Invocation := do
  let (outer, rest) ← scan commonOptions true {} args
  match rest with
  | [] => .error .noCommand
  | name :: args =>
    match commandOptions name with
    | none => .error (.unknownCommand name)
    | some grammar => do
      let (inner, _) ← scan grammar false {} args
      let outerSize ← outer.maxBatchSize
      let innerSize ← inner.maxBatchSize
      let command ← Command.ofGiven name inner
      pure {
        command
        json := outer.has "json" || inner.has "json"
        strict := outer.has "strict" || inner.has "strict"
        maxBatchSize := innerSize <|> outerSize }

end PartitionLog.Cli
