import ChainExtract.Abi.Event
import ChainExtract.Export.Xes
import ChainExtract.Library

/-!
# Instructions

The instructions of a program and the operands from which they take values.
Instructions that visit chain items hold the instructions to be run for each
item.
-/

namespace ChainExtract

inductive Operand where
  | literal (value : Value)
  /-- A variable of the store. -/
  | stored (name : String)
  /-- A chain variable, read at the cursor. -/
  | chain (name : String)
  /-- The result of a method, kept in a variable if one is named. -/
  | call (method : Method) (arguments : List Operand) (result : Option String)
  /-- The list of the values of the operands. -/
  | list (items : List Operand)

/-- A question to a contract: a member, its inputs, and the variables that
take what it returns, with their contract types. -/
structure MemberRead where
  member : String
  inputs : List Operand
  outputs : List (String × String)

/-- The variables that take what the member returns. -/
def MemberRead.names (read : MemberRead) : List String := read.outputs.map (·.1)

structure AttributeOperand where
  key : String
  type : XesType
  value : Operand

/-- An instruction. Programs may have instructions of a further kind `χ`,
whose meaning is given where they are run. -/
inductive Instruction (χ : Type) where
  | assign (target : String) (value : Operand)
  | call (method : Method) (arguments : List Operand) (result : Option String)
  | exportRow (table : String) (columns : List (String × Operand))
  | exportLine (parts : List Operand)
  | exportEvent (trace event : Operand) (attributes : List AttributeOperand)
  /-- Visits the blocks of a range; without an upper end the range is endless. -/
  | blocks (first : Operand) (last : Option Operand) (body : List (Instruction χ))
  /-- Visits the transactions of the block between the given addresses. -/
  | transactions (senders recipients : Option Operand) (body : List (Instruction χ))
  /-- Visits the log entries of the transaction that belong to an event. -/
  | logEntries (event : EventDecl) (emitters : Option Operand) (body : List (Instruction χ))
  | when (condition : Operand) (body : List (Instruction χ))
  /-- Reads public state of a contract for the body. -/
  | contract (address : Operand) (reads : List MemberRead) (body : List (Instruction χ))
  | further (instruction : χ)

end ChainExtract
