import ChainExtract.Address
import ChainExtract.Export.Sink
import ChainExtract.Json.Value

/-!
# Plans

A plan says what is to be read from a chain and what is to be exported, in
terms of named variables and methods. It is the source form of a program:
names are not yet resolved and types not yet checked.
-/

namespace ChainExtract.Plan

inductive Format where
  | csv (delimiter : Char)
  | log
  | xes
deriving DecidableEq, Repr

structure Output where
  format : Format
  mode : SinkMode
deriving DecidableEq, Repr

/-- The sink of an output, still empty. -/
def Output.sink (output : Output) : Sink where
  mode := output.mode
  buffer :=
    match output.format with
    | .csv delimiter => .csv delimiter []
    | .log => .lines []
    | .xes => .xes []

inductive Operand where
  | stored (name : String)
  | chain (name : String)
  /-- The result of a method, kept in a variable if one is named. -/
  | call (method : String) (arguments : List Operand) (result : Option String)
  /-- The list of the values of the operands. -/
  | list (items : List Operand)
  | address (value : Address)
  | bytes (value : Bytes)
  /-- An integer of any size, as text. -/
  | integer (text : String)
  | literal (value : JsonValue)

/-- A parameter of an event: a variable of the filter. -/
structure Parameter where
  name : String
  type : String
  indexed : Bool
deriving DecidableEq, Repr

/-- A result of a contract member: a variable of the filter. -/
structure MemberOutput where
  name : String
  type : String
deriving DecidableEq, Repr

structure MemberQuery where
  member : String
  inputs : List Operand
  outputs : List MemberOutput

structure Attribute where
  key : String
  type : XesType
  value : Operand

inductive Instruction where
  | blocks (first : Operand) (last : Option Operand) (body : List Instruction)
  | transactions (senders recipients : Option Operand) (body : List Instruction)
  | logEntries (event : String) (parameters : List Parameter) (emitters : Option Operand)
      (body : List Instruction)
  | when (condition : Operand) (body : List Instruction)
  | contract (address : Operand) (queries : List MemberQuery) (body : List Instruction)
  | assign (target : String) (value : Operand)
  | call (method : String) (arguments : List Operand) (result : Option String)
  | exportRow (table : String) (columns : Keyed String Operand)
  | exportLine (parts : List Operand)
  | exportEvent (trace event : Operand) (attributes : List Attribute)

end ChainExtract.Plan

namespace ChainExtract

/-- A plan: its outputs and its instructions. -/
structure Plan where
  outputs : List Plan.Output
  instructions : List Plan.Instruction

end ChainExtract
