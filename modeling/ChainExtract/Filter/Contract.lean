import ChainExtract.Program.Evaluate

/-!
# Reads of contract state

Public state of a contract as of the block being visited. What the members
return is held in variables while the body runs, and only then.
-/

namespace ChainExtract.ContractFilter

variable {σ : Type}

/-- The contract that an address gives, and the number of the block as of which
it is read. -/
def target (address : Value) : Run σ (Address × Int) := do
  match address with
  | .addr contract =>
    match (← Run.state).cursor.block with
    | none => Run.fail (.unsetCursor "smart contract filter" .block)
    | some block => return (contract, block.number)
  | value => Run.fail (.invalidParameters "smart contract" s!"expected an address, got {value.text}")

/-- Asks a member for values of the given contract types. -/
def ask (target : Address × Int) (member : String) (inputs : List Value) (types : List String) :
    Run σ (List Value) := do
  let values ← Run.query ⟨target.1, target.2, member, inputs, types⟩
  if values.length ≠ types.length then
    Run.fail (.invalidParameters member
      s!"expected {types.length} return values, got {values.length}")
  return values

/-- Asks one member and sets the variables that take what it returns. -/
def read (target : Address × Int) (read : MemberRead) : Run σ Unit := do
  let inputs ← Operand.evaluateAll read.inputs
  let values ← ask target read.member inputs (read.outputs.map (·.2))
  (read.names.zip values).forM fun (name, value) => Run.assign name value

/-- Reads all members and runs the body. -/
def readAndRun (address : Operand) (reads : List MemberRead) (body : Run σ Unit) : Run σ Unit := do
  let target ← target (← address.evaluate)
  reads.forM (read target)
  body

/-- Reads all members, runs the body, and removes the variables however that
ended. -/
def run (address : Operand) (reads : List MemberRead) (body : Run σ Unit) : Run σ Unit := do
  let outcome ← (readAndRun address reads body).attempt
  Run.erase (reads.flatMap MemberRead.names)
  Run.ofExcept outcome

end ChainExtract.ContractFilter
