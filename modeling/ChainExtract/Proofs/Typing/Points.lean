import ChainExtract.Plan.Compile
import ChainExtract.Proofs.BlockRange.Entries
import ChainExtract.Proofs.Typing.Conformance
import Mathlib.Logic.Relation

/-! # Points of a run

The points of a plan at which a run arrives, with the names that are visible there and the
state of the run. A point stands before an instruction of a body or before an operand.
Nothing is asked of what happens behind a point: points inside of what fails or never ends
are points as well, and so are those of bodies that are run again behind a failure.
-/

namespace ChainExtract

variable {σ : Type}

/-- An instruction that is run from the first state begins its body in the second. -/
inductive Instruction.Begins (settings : Settings σ) :
    Instruction Empty → RunState σ → RunState σ → Prop
  /-- A range hands a block that it has fetched to its body. -/
  | blocks {first : Operand} {last : Option Operand} {body : List (Instruction Empty)}
      {state second third turning fetched : RunState σ} {lower : Value} {upper : Option Value}
      {start next : Int} {stop : Option Int} {window after : Window} {block : Block}
      (hfirst : first.evaluate.run settings state = .ok lower second)
      (hstart : BlockRange.bound lower = .ok start)
      (hlast : (Operand.evaluate? last).run settings second = .ok upper third)
      (hstop : BlockRange.bound? upper = .ok stop)
      (hreaches : BlockRange.Reaches (executeAll Empty.elim body) start stop settings third
        window next turning)
      (hnext : BlockRange.isBeyond stop next = false)
      (hfetch : (BlockRange.fetch window next).run settings turning =
        .ok (.ok (block, after)) fetched) :
      Begins settings (.blocks first last body) state
        { fetched with cursor := .atBlock block, journal := .delivered block :: fetched.journal }
  /-- The earlier ones of the chosen transactions have been visited. -/
  | transactions {senders recipients : Option Operand} {body : List (Instruction Empty)}
      {state second third visited : RunState σ} {sending receiving : AddressSet} {block : Block}
      {earlier later : List Nat} {index : Nat} {cursor : Cursor}
      (hsenders : (evaluateAddresses "transaction senders" senders).run settings state =
        .ok sending second)
      (hrecipients : (evaluateAddresses "transaction recipients" recipients).run settings second =
        .ok receiving third)
      (hblock : third.cursor.block = some block)
      (hmatching : TransactionFilter.matching sending receiving block = earlier ++ index :: later)
      (hearlier : (TransactionFilter.visitAll (executeAll Empty.elim body) earlier).run settings
        third = .ok () visited)
      (hcursor : visited.cursor.atTransaction index = .ok cursor) :
      Begins settings (.transactions senders recipients body) state { visited with cursor }
  /-- The earlier ones of the chosen log entries have been visited, and the parameters of this
  one have been set. -/
  | logEntries {event : EventDecl} {emitters : Option Operand} {body : List (Instruction Empty)}
      {state second visited begun : RunState σ} {emitting : AddressSet}
      {transaction : Transaction} {earlier later : List Nat} {index : Nat}
      (hemitters : (evaluateAddresses "log entry addresses" emitters).run settings state =
        .ok emitting second)
      (htransaction : second.cursor.transaction = some transaction)
      (hmatching : LogEntryFilter.matching event emitting transaction = earlier ++ index :: later)
      (hearlier : (LogEntryFilter.visitEach event.name
        (LogEntryFilter.visit event (executeAll Empty.elim body)) earlier).run settings second =
          .ok () visited)
      (hset : (do
        let decoded ← LogEntryFilter.enter event index
        decoded.forM fun (name, value) => Run.assign name value).run settings visited =
          .ok () begun) :
      Begins settings (.logEntries event emitters body) state begun
  | when {condition : Operand} {body : List (Instruction Empty)} {state begun : RunState σ}
      (hcondition : condition.evaluate.run settings state = .ok (.bool true) begun) :
      Begins settings (.when condition body) state begun
  /-- Everything that is asked of the contract has been answered. -/
  | contract {address : Operand} {reads : List MemberRead} {body : List (Instruction Empty)}
      {state begun : RunState σ}
      (hreads : (do
        let target ← ContractFilter.target (← address.evaluate)
        reads.forM (ContractFilter.read target)).run settings state = .ok () begun) :
      Begins settings (.contract address reads body) state begun

namespace Plan

/-- What an instruction does with the value of an operand. -/
inductive Use where
  /-- Values of all types are taken: they are exported, kept or passed on. -/
  | plain
  | condition
  | bound
  | contract
  | addresses

/-- The program does not refuse the value for the use. -/
def Use.Takes (settings : Settings σ) (value : Value) : Use → Prop
  | plain => True
  | condition => ∀ state, (runWhen value (pure ())).run settings state = .ok () state
  | bound => ∃ number, BlockRange.bound value = .ok number
  | contract => ∀ state block, state.cursor.block = some block → ∃ address,
    (ContractFilter.target value).run settings state = .ok (address, block.number) state
  | addresses => ∀ subject, ∃ set, AddressSet.ofValue subject (some value) = .ok set

namespace Instruction

/-- The operands from which the instruction takes values itself, in their order. The inputs
of questions to contracts are not among them. -/
def uses : Instruction → List (Use × Operand)
  | blocks first last _ => (.bound, first) :: last.toList.map (.bound, ·)
  | transactions senders recipients _ =>
    senders.toList.map (.addresses, ·) ++ recipients.toList.map (.addresses, ·)
  | logEntries _ _ emitters _ => emitters.toList.map (.addresses, ·)
  | when condition _ => [(.condition, condition)]
  | contract address _ _ => [(.contract, address)]
  | assign _ value => [(.plain, value)]
  | call _ arguments _ => arguments.map (.plain, ·)
  | exportRow _ columns => columns.map fun column => (.plain, column.2)
  | exportLine parts => parts.map (.plain, ·)
  | exportEvent trace event attributes =>
    (.plain, trace) :: (.plain, event) :: attributes.map fun entry => (.plain, entry.value)

def body : Instruction → List Instruction
  | blocks _ _ body | transactions _ _ body | logEntries _ _ _ body | when _ body
  | contract _ _ body => body
  | assign _ _ | call _ _ _ | exportRow _ _ | exportLine _ | exportEvent _ _ _ => []

/-- The place of the body of an instruction at a place. -/
def bodyPlace (place : Option Scope) : Instruction → Option Scope
  | blocks _ _ _ => some .block
  | transactions _ _ _ => some .transaction
  | logEntries _ _ _ _ => some .logEntry
  | _ => place

/-- Compiles an instruction up to its body, of which the names are left. -/
def opening (library : Library) (place : Option Scope) : Instruction → Compiler Unit
  | blocks first last _ => do
    let _ ← Operand.compileTyped library place "block range start" .int first
    let _ ← Operand.compile? (Operand.compileTyped library place "block range end" .int) last
    modify Names.enter
  | transactions senders recipients _ => do
    let _ ← Operand.compile? (Operand.compileAddresses library place "senders") senders
    let _ ← Operand.compile? (Operand.compileAddresses library place "recipients") recipients
    modify Names.enter
  | logEntries _ parameters emitters _ => do
    let _ ← Operand.compile? (Operand.compileAddresses library place "log entry addresses") emitters
    modify Names.enter
    let _ ← Parameter.compileAll parameters
    return
  | when condition _ => do
    let _ ← Operand.compileTyped library place "condition" .bool condition
    modify Names.enter
  | contract address queries _ => do
    let _ ← Operand.compileTyped library place "smart contract" .address address
    let inputs ← MemberQuery.compileInputs library place queries
    modify Names.enter
    let _ ← MemberQuery.compileAll queries inputs
    return
  | assign _ _ | call _ _ _ | exportRow _ _ | exportLine _ | exportEvent _ _ _ => return

end Instruction

/-- The operands of which an operand is made. -/
def Operand.parts : Operand → List Operand
  | call _ arguments _ => arguments
  | list items => items
  | stored _ | chain _ | address _ | bytes _ | integer _ | literal _ => []

/-- What is to come at a point: the rest of a body, or the rest of some operands. -/
inductive Part where
  | instructions (rest : List Instruction)
  | operands (rest : List (Use × Operand))

/-- A point of a run: what is to come, where that stands in the plan, with which names it is
compiled, and the state of the run. -/
structure Point (σ : Type) where
  place : Option Scope
  names : Names
  part : Part
  state : RunState σ

section

variable (library : Library) (settings : Settings σ)

/-- A run that arrives at the first point goes on to the second. -/
inductive Leads : Point σ → Point σ → Prop
  /-- Behind an instruction comes the rest of its body. -/
  | instruction {place : Option Scope} {names next : Names} {instruction : Instruction}
      {rest : List Instruction} {compiled : ChainExtract.Instruction Empty}
      {state after : RunState σ}
      (hcompile : (instruction.compile library place).run names = .ok (compiled, next))
      (hrun : (compiled.execute Empty.elim).run settings state = .ok () after) :
      Leads ⟨place, names, .instructions (instruction :: rest), state⟩
        ⟨place, next, .instructions rest, after⟩
  /-- The body of an instruction, each time that it begins. -/
  | body {place : Option Scope} {names next inner : Names} {instruction : Instruction}
      {rest : List Instruction} {compiled : ChainExtract.Instruction Empty}
      {state begun : RunState σ}
      (hcompile : (instruction.compile library place).run names = .ok (compiled, next))
      (hopening : (instruction.opening library place).run names = .ok ((), inner))
      (hbegins : compiled.Begins settings state begun) :
      Leads ⟨place, names, .instructions (instruction :: rest), state⟩
        ⟨instruction.bodyPlace place, inner, .instructions instruction.body, begun⟩
  /-- The operands of an instruction come first. -/
  | uses {place : Option Scope} {names : Names} {instruction : Instruction}
      {rest : List Instruction} {state : RunState σ} :
      Leads ⟨place, names, .instructions (instruction :: rest), state⟩
        ⟨place, names, .operands instruction.uses, state⟩
  /-- The inputs of a question come behind the address and the earlier questions. -/
  | inputs {place : Option Scope} {names next second third : Names} {address : Operand}
      {earlier later : List MemberQuery} {query : MemberQuery} {body rest : List Instruction}
      {contract target : ChainExtract.Operand} {inputs : List (List ChainExtract.Operand)}
      {reads : List MemberRead} {code : List (ChainExtract.Instruction Empty)}
      {state asked : RunState σ}
      (hcompile : ((Instruction.contract address (earlier ++ query :: later) body).compile library
        place).run names = .ok (.contract contract reads code, next))
      (haddress : (Operand.compileTyped library place "smart contract" .address address).run names =
        .ok (target, second))
      (hinputs : (MemberQuery.compileInputs library place earlier).run second =
        .ok (inputs, third))
      (hreads : (do
        let target ← ContractFilter.target (← contract.evaluate)
        (reads.take earlier.length).forM (ContractFilter.read target)).run settings state =
          .ok () asked) :
      Leads
        ⟨place, names, .instructions (.contract address (earlier ++ query :: later) body :: rest),
          state⟩
        ⟨place, third, .operands (query.inputs.map (.plain, ·)), asked⟩
  /-- Behind an operand come the others. -/
  | operand {place : Option Scope} {names next : Names} {use : Use} {operand : Operand}
      {rest : List (Use × Operand)} {compiled : ChainExtract.Operand} {type : ValueType}
      {state after : RunState σ} {value : Value}
      (hcompile : (operand.compile library place).run names = .ok ((compiled, type), next))
      (hrun : compiled.evaluate.run settings state = .ok value after) :
      Leads ⟨place, names, .operands ((use, operand) :: rest), state⟩
        ⟨place, next, .operands rest, after⟩
  /-- The operands of which an operand is made come first. -/
  | parts {place : Option Scope} {names : Names} {use : Use} {operand : Operand}
      {rest : List (Use × Operand)} {state : RunState σ} :
      Leads ⟨place, names, .operands ((use, operand) :: rest), state⟩
        ⟨place, names, .operands (operand.parts.map (.plain, ·)), state⟩

/-- The points at which a run of the plan arrives. -/
def Arrives (plan : Plan) (start : RunState σ) : Point σ → Prop :=
  Relation.ReflTransGen (Leads library settings) ⟨none, {}, .instructions plan.instructions, start⟩

/-- The visible variables have values of their types, and an operand that is evaluated at the
point has a value of its type. Unless the type says nothing, the value is one that is taken. -/
structure Point.WellTyped (point : Point σ) : Prop where
  visible : ∀ name declared, point.names.find? name = some declared →
    ∃ value, point.state.store.get? declared.storage = some value ∧ value.Conforms declared.type
  evaluated : ∀ use operand rest, point.part = .operands ((use, operand) :: rest) →
    ∃ compiled type next,
      (operand.compile library point.place).run point.names = .ok ((compiled, type), next) ∧
      ∀ value after, compiled.evaluate.run settings point.state = .ok value after →
        value.Conforms type ∧
          (type ≠ .any → type ≠ .list .any → use.Takes settings value)

end

end Plan

end ChainExtract
