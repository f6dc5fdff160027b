import ChainExtract.Program.Execute

/-! # Tracing tasks

A program is executed while it is recorded how its tasks have ended: visits of items, retrievals
and exports of blocks, top-level instructions, and the export at the end. Apart from the record
the execution is that of the program.
-/

namespace ChainExtract

variable {σ α β : Type}

/-- A part of a run whose failure is reported. -/
inductive Task where
  /-- The visit of a log entry of an event. -/
  | logEntry (event : String) (index : Nat)
  | transaction (index : Nat)
  | block (number : Int)
  | retrieval (number : Int)
  /-- The export of what a block has left to the sinks. -/
  | blockExport (number : Int)
  /-- An instruction that is nested in no other. -/
  | instruction
  /-- The export of what the whole run has left to the sinks. -/
  | lastExport
deriving DecidableEq

/-- The words in which a failure of the task is reported. -/
def Task.message (task : Task) (error : Error) : String :=
  match task with
  | logEntry event index => s!"error processing log entry {index} ({event})"
  | transaction index => s!"error processing transaction {index}"
  | block number => s!"error processing block {Numeral.decimal number}"
  | retrieval number =>
    match error with
    | .discontinuity _ _ => "cannot continue extracting blocks"
    | _ => BlockRange.retrievalMessage number
  | blockExport number => s!"error exporting block {Numeral.decimal number}"
  | instruction => "error during program execution"
  | lastExport => "error exporting data"

/-- How a task has ended, and in which state. -/
structure Ending (σ : Type) where
  task : Task
  outcome : Except Error Unit
  state : RunState σ

/-- Whether the task has ended in a failure that is no abort. -/
def Ending.hasFailed (ending : Ending σ) : Bool :=
  match ending.outcome with
  | .ok () => false
  | .error error => !error.isAborted

/-- What is reported about the task: its failure, unless that is an abort. -/
def Ending.report? (ending : Ending σ) : Option (String × Error) :=
  match ending.outcome with
  | .ok () | .error (.aborted _) => none
  | .error error => some (ending.task.message error, error)

theorem Ending.isSome_report? (ending : Ending σ) : ending.report?.isSome = ending.hasFailed := by
  unfold report? hasFailed
  cases ending.outcome with
  | ok => rfl
  | error error => cases error <;> rfl

/-- A run, and how its tasks end, the oldest first. -/
structure Traced (σ α : Type) where
  run : Run σ α
  endings : Settings σ → RunState σ → List (Ending σ)

namespace Traced

def lift (x : Run σ α) : Traced σ α := ⟨x, fun _ _ => []⟩

def bind (x : Traced σ α) (f : α → Traced σ β) : Traced σ β where
  run := x.run >>= fun result => (f result).run
  endings settings state :=
    x.endings settings state ++
      match x.run.run settings state with
      | .ok result middle => (f result).endings settings middle
      | .failed _ _ | .unfinished => []

instance : Monad (Traced σ) where
  pure result := lift (pure result)
  bind := bind

def attempt (x : Traced σ α) : Traced σ (Except Error α) := ⟨x.run.attempt, x.endings⟩

/-- Records how a task has ended. -/
def record (task : Task) (outcome : Except Error Unit) : Traced σ Unit where
  run := pure ()
  endings _ state := [⟨task, outcome, state⟩]

/-- Concludes a task: records how it has ended, and settles its failure. -/
def conclude (task : Task) : Except Error Unit → Traced σ Unit
  | .ok () => record task (.ok ())
  | .error error => do
    record task (.error error)
    lift (Run.settle (task.message error) error)

@[simp] theorem run_lift (x : Run σ α) : (lift x).run = x := rfl

@[simp] theorem run_pure (result : α) : (pure result : Traced σ α).run = pure result := rfl

@[simp] theorem run_bind (x : Traced σ α) (f : α → Traced σ β) :
    (x >>= f).run = x.run >>= fun result => (f result).run := rfl

@[simp] theorem run_attempt (x : Traced σ α) : x.attempt.run = x.run.attempt := rfl

@[simp] theorem run_record (task : Task) (outcome : Except Error Unit) :
    (record task outcome : Traced σ Unit).run = pure () := rfl

theorem run_conclude {task : Task} {message : String}
    (hmessage : ∀ error, task.message error = message) (outcome : Except Error Unit) :
    (conclude task outcome : Traced σ Unit).run = Run.conclude message outcome := by
  cases outcome with
  | ok => rfl
  | error error =>
      rw [← hmessage error]
      rfl

end Traced

open Traced

namespace TransactionFilter

def traceAll (body : Traced σ Unit) : List Nat → Traced σ Unit
  | [] => return
  | index :: rest => do
    lift do Run.setCursor (← Run.ofExcept ((← Run.state).cursor.atTransaction index))
    let outcome ← body.attempt
    lift do Run.setCursor (← Run.state).cursor.withoutTransaction
    conclude (.transaction index) outcome
    traceAll body rest

def trace (senders recipients : AddressSet) (body : Traced σ Unit) : Traced σ Unit := do
  match (← lift Run.state).cursor.block with
  | none => lift (Run.fail (.unsetCursor "transaction filter" .block))
  | some block => traceAll body (matching senders recipients block)

theorem run_traceAll (body : Traced σ Unit) (indices : List Nat) :
    (traceAll body indices).run = visitAll body.run indices := by
  induction indices with
  | nil => rfl
  | cons index rest ih =>
      have hconclude (outcome : Except Error Unit) :
          (conclude (.transaction index) outcome : Traced σ Unit).run =
            Run.conclude s!"error processing transaction {index}" outcome :=
        run_conclude (fun _ => rfl) outcome
      simp only [traceAll, visitAll, Traced.run_bind, Traced.run_lift, Traced.run_attempt,
        hconclude, ih, bind_assoc]

theorem run_trace (senders recipients : AddressSet) (body : Traced σ Unit) :
    (trace senders recipients body).run = run senders recipients body.run := by
  simp only [trace, run, Traced.run_bind, Traced.run_lift]
  congr 1
  funext state
  cases state.cursor.block with
  | none => rfl
  | some block => exact run_traceAll body _

end TransactionFilter

namespace LogEntryFilter

def traceVisit (event : EventDecl) (body : Traced σ Unit) (index : Nat) : Traced σ Unit := do
  let decoded ← lift (enter event index)
  lift (decoded.forM fun (name, value) => Run.assign name value)
  let outcome ← body.attempt
  lift do
    Run.erase (decoded.map (·.1))
    Run.ofExcept outcome

def traceEach (event : EventDecl) (body : Traced σ Unit) : List Nat → Traced σ Unit
  | [] => return
  | index :: rest => do
    let outcome ← (traceVisit event body index).attempt
    lift do Run.setCursor (← Run.state).cursor.withoutLogEntry
    conclude (.logEntry event.name index) outcome
    traceEach event body rest

def trace (event : EventDecl) (emitters : AddressSet) (body : Traced σ Unit) : Traced σ Unit := do
  match (← lift Run.state).cursor.transaction with
  | none => lift (Run.fail (.unsetCursor "log entry filter" .transaction))
  | some transaction => traceEach event body (matching event emitters transaction)

theorem run_traceVisit (event : EventDecl) (body : Traced σ Unit) (index : Nat) :
    (traceVisit event body index).run = visit event body.run index := rfl

theorem run_traceEach (event : EventDecl) (body : Traced σ Unit) (indices : List Nat) :
    (traceEach event body indices).run = visitEach event.name (visit event body.run) indices := by
  induction indices with
  | nil => rfl
  | cons index rest ih =>
      have hconclude (outcome : Except Error Unit) :
          (conclude (.logEntry event.name index) outcome : Traced σ Unit).run =
            Run.conclude s!"error processing log entry {index} ({event.name})" outcome :=
        run_conclude (fun _ => rfl) outcome
      simp only [traceEach, visitEach, Traced.run_bind, Traced.run_lift, Traced.run_attempt,
        run_traceVisit, hconclude, ih, bind_assoc]

theorem run_trace (event : EventDecl) (emitters : AddressSet) (body : Traced σ Unit) :
    (trace event emitters body).run = run event emitters body.run := by
  simp only [trace, run, visitMatching, Traced.run_bind, Traced.run_lift]
  congr 1
  funext state
  cases state.cursor.transaction with
  | none => rfl
  | some transaction => exact run_traceEach event body _

end LogEntryFilter

namespace BlockRange

def traceVisit (body : Traced σ Unit) (block : Block) : Traced σ Unit := do
  lift do
    Run.note (.delivered block)
    Run.setCursor (.atBlock block)
  let outcome ← attempt do
    conclude (.block block.number) (← body.attempt)
    let failure? ← lift (Run.finish (.block block.number))
    conclude (.blockExport block.number) (failure?.elim (.ok ()) .error)
  lift do
    Run.setCursor .empty
    Run.ofExcept outcome

def traceTurn (body : Traced σ Unit) (window : Window) (next : Int) :
    Traced σ (Window × Int) := do
  let fetched ← lift (fetch window next)
  record (.retrieval next) (fetched.map fun _ => ())
  match fetched with
  | .ok (block, window) =>
    traceVisit body block
    return (window, block.number + 1)
  | .error (.discontinuity number depth) =>
    let error := Error.discontinuity number depth
    lift do
      Run.report "cannot continue extracting blocks" error
      Run.fail (.aborted error)
  | .error error =>
    lift (Run.settle (retrievalMessage next) error)
    return (window.reset, next + 1)

def traceFrom (body : Traced σ Unit) (last : Option Int) :
    (patience : Nat) → Window → (next : Int) → Traced σ Unit
  | patience, window, next => do
    if isBeyond last next then return
    match patience with
    | 0 => lift Run.giveUp
    | patience + 1 =>
      let (window, next) ← traceTurn body window next
      traceFrom body last patience window next

def trace (body : Traced σ Unit) (first : Int) (last : Option Int) : Traced σ Unit := do
  traceFrom body last (← lift Run.settings).patience { capacity := Window.rangeCapacity } first

theorem run_traceVisit (body : Traced σ Unit) (block : Block) :
    (traceVisit body block).run = visit body.run block := by
  have hblock (outcome : Except Error Unit) :
      (conclude (.block block.number) outcome : Traced σ Unit).run =
        Run.conclude s!"error processing block {Numeral.decimal block.number}" outcome :=
    run_conclude (fun _ => rfl) outcome
  have hexport (outcome : Except Error Unit) :
      (conclude (.blockExport block.number) outcome : Traced σ Unit).run =
        Run.conclude s!"error exporting block {Numeral.decimal block.number}" outcome :=
    run_conclude (fun _ => rfl) outcome
  simp only [traceVisit, visit, Traced.run_bind, Traced.run_lift, Traced.run_attempt, hblock,
    hexport, bind_assoc]

theorem run_traceTurn (body : Traced σ Unit) (window : Window) (next : Int) :
    (traceTurn body window next).run = turn body.run window next := by
  simp only [traceTurn, turn, Traced.run_bind, Traced.run_lift, Traced.run_record]
  congr 1
  funext fetched
  rw [pure_bind]
  cases fetched with
  | ok fetched => simp only [Traced.run_bind, run_traceVisit, Traced.run_pure]
  | error error => cases error <;> rfl

theorem run_traceFrom (body : Traced σ Unit) (last : Option Int) (patience : Nat)
    (window : Window) (next : Int) :
    (traceFrom body last patience window next).run =
      visitFrom body.run last patience window next := by
  induction patience generalizing window next with
  | zero =>
      rw [traceFrom, visitFrom]
      split <;> rfl
  | succ patience ih =>
      rw [traceFrom, visitFrom]
      split
      · rfl
      · simp only [Traced.run_bind, run_traceTurn, ih]

theorem run_trace (body : Traced σ Unit) (first : Int) (last : Option Int) :
    (trace body first last).run = visitAll body.run first last := by
  simp only [trace, visitAll, Traced.run_bind, Traced.run_lift, run_traceFrom]

end BlockRange

namespace ContractFilter

def trace (address : Operand) (reads : List MemberRead) (body : Traced σ Unit) :
    Traced σ Unit := do
  let outcome ← attempt do
    lift do
      let target ← target (← address.evaluate)
      reads.forM (read target)
    body
  lift do
    Run.erase (reads.flatMap MemberRead.names)
    Run.ofExcept outcome

theorem run_trace (address : Operand) (reads : List MemberRead) (body : Traced σ Unit) :
    (trace address reads body).run = run address reads body.run := by
  simp only [trace, run, readAndRun, Traced.run_bind, Traced.run_lift, Traced.run_attempt,
    bind_assoc]

end ContractFilter

def traceWhen (condition : Value) (body : Traced σ Unit) : Traced σ Unit :=
  match condition with
  | .bool true => body
  | .bool false => return
  | value => lift <| Run.fail (.invalidParameters "condition" s!"expected a boolean, got {value.text}")

theorem run_traceWhen (condition : Value) (body : Traced σ Unit) :
    (traceWhen condition body).run = runWhen condition body.run := by
  cases condition with
  | bool truth => cases truth <;> rfl
  | _ => rfl

namespace Instruction

mutual

def trace : Instruction Empty → Traced σ Unit
  | .blocks first last body => do
    let first ← lift do Run.ofExcept (BlockRange.bound (← first.evaluate))
    let last ← lift do Run.ofExcept (BlockRange.bound? (← Operand.evaluate? last))
    BlockRange.trace (traceAll body) first last
  | .transactions senders recipients body => do
    let senders ← lift (evaluateAddresses "transaction senders" senders)
    let recipients ← lift (evaluateAddresses "transaction recipients" recipients)
    TransactionFilter.trace senders recipients (traceAll body)
  | .logEntries event emitters body => do
    let emitters ← lift (evaluateAddresses "log entry addresses" emitters)
    LogEntryFilter.trace event emitters (traceAll body)
  | .when condition body => do traceWhen (← lift condition.evaluate) (traceAll body)
  | .contract address reads body => ContractFilter.trace address reads (traceAll body)
  | instruction => lift (instruction.execute Empty.elim)

def traceAll : List (Instruction Empty) → Traced σ Unit
  | [] => return
  | instruction :: rest => do
    trace instruction
    traceAll rest

end

mutual

theorem run_trace : ∀ instruction : Instruction Empty,
    (trace instruction : Traced σ Unit).run = instruction.execute Empty.elim
  | .blocks first last body => by
      simp only [trace, execute, Traced.run_bind, Traced.run_lift, BlockRange.run_trace,
        run_traceAll body, bind_assoc]
  | .transactions senders recipients body => by
      simp only [trace, execute, Traced.run_bind, Traced.run_lift, TransactionFilter.run_trace,
        run_traceAll body]
  | .logEntries event emitters body => by
      simp only [trace, execute, Traced.run_bind, Traced.run_lift, LogEntryFilter.run_trace,
        run_traceAll body]
  | .when condition body => by
      simp only [trace, execute, Traced.run_bind, Traced.run_lift, run_traceWhen,
        run_traceAll body]
  | .contract address reads body => by
      simp only [trace, execute, ContractFilter.run_trace, run_traceAll body]
  | .assign _ _ | .call _ _ _ | .exportRow _ _ | .exportLine _ | .exportEvent _ _ _ => by
      simp [trace]

theorem run_traceAll : ∀ instructions : List (Instruction Empty),
    (traceAll instructions : Traced σ Unit).run = executeAll Empty.elim instructions
  | [] => by
      rw [traceAll, executeAll]
      rfl
  | instruction :: rest => by
      simp only [traceAll, executeAll, Traced.run_bind, run_trace instruction, run_traceAll rest]

end

end Instruction

namespace Program

/-- Runs the top-level instructions of a program. -/
def traceInstructions : Program Empty → Traced σ Unit
  | [] => return
  | instruction :: rest => do
    let outcome ← (instruction.trace).attempt
    record .instruction outcome
    lift (Run.ofExcept outcome)
    traceInstructions rest

def trace (program : Program Empty) : Traced σ Unit := do
  match ← (traceInstructions program).attempt with
  | .ok () | .error (.aborted _) => pure ()
  | .error error => lift (Run.report "error during program execution" error)
  let failure? ← lift (Run.finish .allBlocks)
  record .lastExport (failure?.elim (.ok ()) .error)
  lift do
    match failure? with
    | none => pure ()
    | some error => Run.report "error exporting data" error
    Run.close

theorem run_traceInstructions (program : Program Empty) :
    (traceInstructions program : Traced σ Unit).run =
      Instruction.executeAll Empty.elim program := by
  induction program with
  | nil => rfl
  | cons instruction rest ih =>
      have hrethrown (x : Run σ Unit) : (x.attempt >>= fun outcome => Run.ofExcept outcome) = x := by
        ext settings state
        rw [Run.run_bind, Run.run_attempt]
        cases x.run settings state <;> rfl
      simp only [traceInstructions, Instruction.executeAll, Traced.run_bind, Traced.run_lift,
        Traced.run_attempt, Traced.run_record, Instruction.run_trace, ih, pure_bind]
      rw [← bind_assoc, hrethrown]

/-- The traced program runs as the program does. -/
theorem run_trace (program : Program Empty) :
    (trace program : Traced σ Unit).run = run Empty.elim program := by
  simp only [trace, run, complete, finish, Traced.run_bind, Traced.run_attempt,
    run_traceInstructions]
  congr 1
  funext outcome
  cases outcome with
  | ok => rfl
  | error error => cases error <;> rfl

end Program

end ChainExtract
