import ChainExtract.Filter.BlockRange
import ChainExtract.Filter.Contract
import ChainExtract.Filter.Items

/-!
# Execution

Instructions run one after the other up to the first failure. A program then
ends the run for the sinks and closes the connection to the chain, whatever
happened before, and never fails itself.
-/

namespace ChainExtract

variable {σ χ : Type}

def runWhen (condition : Value) (body : Run σ Unit) : Run σ Unit :=
  match condition with
  | .bool true => body
  | .bool false => return
  | value => Run.fail (.invalidParameters "condition" s!"expected a boolean, got {value.text}")

/-- The addresses that an operand gives for matching, if it is there. -/
def evaluateAddresses (subject : String) (operand : Option Operand) : Run σ AddressSet := do
  Run.ofExcept (AddressSet.ofValue subject (← Operand.evaluate? operand))

namespace Instruction

variable (further : χ → Run σ Unit)

mutual

/-- Runs an instruction. Instructions of the further kind mean what `further` says. -/
def execute : Instruction χ → Run σ Unit
  | assign target value => do Run.assign target (← value.evaluate)
  | call method arguments result => do
    discard <| method.invokeInto (← Operand.evaluateAll arguments) result
  | exportRow table columns => do
    Run.emit (.row table (← Operand.evaluateCells columns))
  | exportLine parts => do
    Run.emit (.line (String.join ((← Operand.evaluateAll parts).map Value.text)))
  | exportEvent trace event attributes => do
    let trace ← trace.evaluate
    let event ← event.evaluate
    Run.emit (.event ⟨trace.text, event.text, ← Operand.evaluateAttributes attributes⟩)
  | blocks first last body => do
    let first ← Run.ofExcept (BlockRange.bound (← first.evaluate))
    let last ← Run.ofExcept (BlockRange.bound? (← Operand.evaluate? last))
    BlockRange.visitAll (executeAll body) first last
  | transactions senders recipients body => do
    let senders ← evaluateAddresses "transaction senders" senders
    let recipients ← evaluateAddresses "transaction recipients" recipients
    TransactionFilter.run senders recipients (executeAll body)
  | logEntries event emitters body => do
    let emitters ← evaluateAddresses "log entry addresses" emitters
    LogEntryFilter.run event emitters (executeAll body)
  | when condition body => do runWhen (← condition.evaluate) (executeAll body)
  | contract address reads body => ContractFilter.run address reads (executeAll body)
  | .further instruction => further instruction

def executeAll : List (Instruction χ) → Run σ Unit
  | [] => return
  | instruction :: rest => do
    execute instruction
    executeAll rest

end

end Instruction

abbrev Program (χ : Type) := List (Instruction χ)

namespace Program

/-- Ends the run for the sinks and closes the connection to the chain. -/
def finish : Run σ Unit := do
  match ← Run.finish .allBlocks with
  | none => pure ()
  | some error => Run.report "error exporting data" error
  Run.close

/-- Runs the instructions of a program and ends the run. -/
def complete (instructions : Run σ Unit) : Run σ Unit := do
  match ← instructions.attempt with
  -- what aborted the run has been reported where it happened
  | .ok () | .error (.aborted _) => pure ()
  | .error error => Run.report "error during program execution" error
  finish

/-- Runs a program to its end. -/
def run (further : χ → Run σ Unit) (program : Program χ) : Run σ Unit :=
  complete (Instruction.executeAll further program)

end Program

end ChainExtract
