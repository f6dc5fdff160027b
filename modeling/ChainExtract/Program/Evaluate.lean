import ChainExtract.Chain.Variable
import ChainExtract.Program.Instruction
import ChainExtract.Run.Request

/-!
# Evaluation of operands

Operands are evaluated from left to right. A method sees its arguments only
after they have passed its signature.
-/

namespace ChainExtract

variable {σ : Type}

namespace Method

/-- Reads public state of a contract as of the block being visited. -/
def readState (arguments : List Value) : Run σ Value := do
  let args : Arguments := ⟨"readContract", arguments⟩
  let contract ← Run.ofExcept (args.addr 0)
  let member ← Run.ofExcept (args.str 1)
  let inputs ← Run.ofExcept (args.list 2)
  let outputTypes ← Run.ofExcept (args.strings 3)
  match (← Run.state).cursor.block with
  | none => Run.fail (.unsetCursor args.method .block)
  | some block =>
    return .list (← Run.query ⟨contract, block.number, member, inputs, outputTypes⟩)

/-- What the method does with arguments that suit it. -/
def perform (method : Method) (arguments : List Value) : Run σ Value :=
  match method.behaviour with
  | .builtin operation => Run.ofExcept (operation.apply arguments)
  | .readContract => readState arguments
  | .constant value => return value

def invoke (method : Method) (arguments : List Value) : Run σ Value := do
  -- operands of unknown type have passed the compiler, so types are checked again
  Run.ofExcept (method.validate arguments)
  method.perform arguments

/-- Calls the method and keeps the result in a variable if one is named. -/
def invokeInto (method : Method) (arguments : List Value) (result : Option String) :
    Run σ Value := do
  let value ← method.invoke arguments
  match result with
  | some name => Run.assign name value
  | none => pure ()
  return value

end Method

namespace Operand

mutual

def evaluate : Operand → Run σ Value
  | literal value => return value
  | stored name => Run.lookup name
  | chain name => do Run.ofExcept (ChainVariable.valueAt name (← Run.state).cursor)
  | call method arguments result => do method.invokeInto (← evaluateAll arguments) result
  | list items => return .list (← evaluateAll items)

def evaluateAll : List Operand → Run σ (List Value)
  | [] => return []
  | operand :: operands => do
    let value ← operand.evaluate
    return value :: (← evaluateAll operands)

end

def evaluate? : Option Operand → Run σ (Option Value)
  | none => return none
  | some operand => return some (← operand.evaluate)

/-- The texts of the values of named operands, in order. -/
def evaluateCells : List (String × Operand) → Run σ (List (String × String))
  | [] => return []
  | (name, operand) :: rest => do
    let value ← operand.evaluate
    return (name, value.text) :: (← evaluateCells rest)

/-- The attributes that operands describe, in order. -/
def evaluateAttributes : List AttributeOperand → Run σ (List (String × XesValue))
  | [] => return []
  | operand :: operands => do
    let value ← operand.value.evaluate
    let converted ← Run.ofExcept (XesValue.ofValue operand.type value)
    return (operand.key, converted) :: (← evaluateAttributes operands)

end Operand

end ChainExtract
