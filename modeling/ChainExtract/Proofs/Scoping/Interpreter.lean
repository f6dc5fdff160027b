import ChainExtract.Plan.Compile

/-! # Plans with lexical frames

A second meaning of plans, which says what the scopes of variables are. The
plan is walked as it stands, with a stack of frames in place of storage names:
each body has a frame of its own for as long as it runs, and operands carry
their static types along with their values. Everything that does not concern
variables is shared with programs.
-/

namespace ChainExtract

/-- A variable of a frame: the type it was declared with, and its value. -/
structure Binding where
  type : ValueType
  value : Value
deriving DecidableEq

/-- The variables that take values, with their declared types. -/
def Binding.zip (vars : List (String × ValueType)) (values : List Value) :
    List (String × Binding) :=
  List.zipWith (fun declared value => (declared.1, ⟨declared.2, value⟩)) vars values

/-- The variables of the enclosing bodies, the innermost frame first. -/
abbrev Frames := List (Keyed String Binding)

namespace Frames

def find? (frames : Frames) (name : String) : Option Binding :=
  frames.findSome? (·.get? name)

def declare (frames : Frames) (name : String) (binding : Binding) : Frames :=
  match frames with
  | [] => []
  | frame :: outer => frame.set name binding :: outer

def declareAll (frames : Frames) (bindings : List (String × Binding)) : Frames :=
  bindings.foldl (fun frames binding => frames.declare binding.1 binding.2) frames

/-- Gives the innermost visible variable of a name a value. -/
def update : Frames → (name : String) → Value → Frames
  | [], _, _ => []
  | frame :: outer, name, value =>
    match frame.get? name with
    | some binding => frame.set name { binding with value } :: outer
    | none => frame :: update outer name value

/-- Assigns a value of a static type: to the innermost visible variable of the name if its
declared type accepts that type, and otherwise to a new variable of the innermost frame. -/
def assign (frames : Frames) (name : String) (type : ValueType) (value : Value) : Frames :=
  match frames.find? name with
  | some binding =>
    if binding.type.accepts type then frames.update name value
    else frames.declare name ⟨type, value⟩
  | none => frames.declare name ⟨type, value⟩

end Frames

/-- The state of a client together with the frames of a plan. -/
structure Scoped (σ : Type) where
  chain : σ
  frames : Frames

variable {σ α : Type}

/-- The client, with the frames beside its state. -/
def Client.scoped (client : Client σ) : Client (Scoped σ) where
  head state := ((client.head state.chain).1, ⟨(client.head state.chain).2, state.frames⟩)
  block number state :=
    ((client.block number state.chain).1, ⟨(client.block number state.chain).2, state.frames⟩)
  member query state :=
    ((client.member query state.chain).1, ⟨(client.member query state.chain).2, state.frames⟩)

def Settings.scoped (settings : Settings σ) : Settings (Scoped σ) where
  client := settings.client.scoped
  abortOnFailure := settings.abortOnFailure
  patience := settings.patience
  stamp := settings.stamp

/-- The state of a run with frames: one frame, in which nothing is declared. -/
def RunState.scoped (state : RunState σ) : RunState (Scoped σ) where
  chain := ⟨state.chain, [[]]⟩
  closed := state.closed
  cursor := state.cursor
  sinks := state.sinks
  folder := state.folder
  journal := state.journal

namespace Run

def frames : Run (Scoped σ) Frames := do return (← state).chain.frames

def modifyFrames (change : Frames → Frames) : Run (Scoped σ) Unit :=
  modify fun state => { state with chain := { state.chain with frames := change state.chain.frames } }

/-- Runs something in a frame of its own, which begins with the given variables and is
discarded however that ends. -/
def within (bindings : List (String × Binding)) (x : Run (Scoped σ) α) : Run (Scoped σ) α := do
  modifyFrames fun frames => Frames.declareAll ([] :: frames) bindings
  let outcome ← x.attempt
  modifyFrames List.tail
  ofExcept outcome

/-- What the compilation would find, or its failure. -/
def ofCompiled : Except CompileError α → Run σ α
  | .ok result => return result
  | .error error => fail (.configuration error.description)

end Run

namespace Plan

variable (library : Library)

/-- Calls a method of the library with values of static types, and assigns the result. -/
def invoke (method : String) (values : List Value) (types : List ValueType)
    (result : Option String) : Run (Scoped σ) (Value × ValueType) := do
  let method ← Run.ofExcept (library.resolve ⟨method, types⟩)
  let value ← method.invoke values
  match result with
  | some name => Run.modifyFrames (·.assign name method.returns value)
  | none => pure ()
  return (value, method.returns)

mutual

/-- The value of an operand and its static type. -/
def Operand.interpret : Operand → Run (Scoped σ) (Value × ValueType)
  | .stored name => do
    match (← Run.frames).find? name with
    | some binding => return (binding.value, binding.type)
    | none => Run.fail (.undefinedVariable name)
  | .chain name => do
    let value ← Run.ofExcept (ChainVariable.valueAt name (← Run.state).cursor)
    return (value, ((ChainVariable.find? name).map (·.type)).getD .any)
  | .call method arguments result => do
    let (values, types) ← Operand.interpretAll arguments
    invoke library method values types result
  | .list items => do
    let (values, types) ← Operand.interpretAll items
    return (.list values, listType types)
  | .address value => return (.addr value, .address)
  | .bytes value => return (.bytes value, .bytes)
  | .integer text => do
    match integer? text with
    | some n => return (.int n, .int)
    | none => Run.ofCompiled (.error (.invalidLiteral text))
  | .literal json => do
    let value ← Run.ofCompiled (Plan.literal json)
    return (value, value.type)

def Operand.interpretAll : List Operand → Run (Scoped σ) (List Value × List ValueType)
  | [] => return ([], [])
  | operand :: operands => do
    let (value, type) ← Operand.interpret operand
    let (values, types) ← Operand.interpretAll operands
    return (value :: values, type :: types)

end

def Operand.interpret? : Option Operand → Run (Scoped σ) (Option Value)
  | none => return none
  | some operand => do return some (← operand.interpret library).1

def Operand.interpretCells : List (String × Operand) → Run (Scoped σ) (List (String × String))
  | [] => return []
  | (name, operand) :: rest => do
    let (value, _) ← operand.interpret library
    return (name, value.text) :: (← Operand.interpretCells rest)

def Attribute.interpretAll : List Attribute → Run (Scoped σ) (List (String × XesValue))
  | [] => return []
  | first :: rest => do
    let (value, _) ← first.value.interpret library
    let converted ← Run.ofExcept (XesValue.ofValue first.type value)
    return (first.key, converted) :: (← Attribute.interpretAll rest)

def Operand.interpretAddresses (subject : String) (operand : Option Operand) :
    Run (Scoped σ) AddressSet := do
  Run.ofExcept (AddressSet.ofValue subject (← Operand.interpret? library operand))

def Parameter.interpretAll : List Parameter → Except Error (List EventParameter)
  | [] => return []
  | parameter :: parameters => do
    let declared ← EventParameter.ofDeclared parameter.name parameter.type parameter.indexed
    return declared :: (← Parameter.interpretAll parameters)

/-- The variables that take the values of a log entry. -/
def eventVars (event : EventDecl) : List (String × ValueType) :=
  event.parameters.map fun parameter => (parameter.name, parameter.valueType)

/-- Visits a log entry: the parameters of its event are variables of the frame of the body. -/
def Parameter.visit (event : EventDecl) (body : Run (Scoped σ) Unit) (index : Nat) :
    Run (Scoped σ) Unit := do
  let decoded ← LogEntryFilter.enter event index
  Run.within (Binding.zip (eventVars event) (decoded.map (·.2))) body

/-- The variables that take what a member returns. -/
def MemberOutput.interpretAll : List MemberOutput → Except Error (List (String × ValueType))
  | [] => return []
  | output :: outputs => do
    let type ← SolType.parse output.type
    return (output.name, type.valueType) :: (← MemberOutput.interpretAll outputs)

/-- Asks the members of a contract, and returns the variables that take what they return. -/
def MemberQuery.interpretAll (target : Address × Int) :
    List MemberQuery → Run (Scoped σ) (List (String × Binding))
  | [] => return []
  | query :: queries => do
    let (inputs, _) ← Operand.interpretAll library query.inputs
    let values ← ContractFilter.ask target query.member inputs (query.outputs.map (·.type))
    let vars ← Run.ofExcept (MemberOutput.interpretAll query.outputs)
    return Binding.zip vars values ++ (← MemberQuery.interpretAll target queries)

mutual

def Instruction.interpret : Instruction → Run (Scoped σ) Unit
  | blocks first last body => do
    let first ← Run.ofExcept (BlockRange.bound (← first.interpret library).1)
    let last ← Run.ofExcept (BlockRange.bound? (← Operand.interpret? library last))
    BlockRange.visitAll (Run.within [] (Instruction.interpretAll body)) first last
  | transactions senders recipients body => do
    let senders ← Operand.interpretAddresses library "transaction senders" senders
    let recipients ← Operand.interpretAddresses library "transaction recipients" recipients
    TransactionFilter.run senders recipients (Run.within [] (Instruction.interpretAll body))
  | logEntries event parameters emitters body => do
    let emitters ← Operand.interpretAddresses library "log entry addresses" emitters
    let event : EventDecl := ⟨event, ← Run.ofExcept (Parameter.interpretAll parameters)⟩
    LogEntryFilter.visitMatching event emitters
      (Parameter.visit event (Instruction.interpretAll body))
  | when condition body => do
    runWhen (← condition.interpret library).1 (Run.within [] (Instruction.interpretAll body))
  | contract address queries body => do
    let target ← ContractFilter.target (← address.interpret library).1
    let bindings ← MemberQuery.interpretAll library target queries
    Run.within bindings (Instruction.interpretAll body)
  | assign target value => do
    let (value, type) ← value.interpret library
    Run.modifyFrames (·.assign target type value)
  | call method arguments result => do
    let (values, types) ← Operand.interpretAll library arguments
    discard <| invoke library method values types result
  | exportRow table columns => do
    Run.emit (.row table (← Operand.interpretCells library columns))
  | exportLine parts => do
    Run.emit (.line (String.join ((← Operand.interpretAll library parts).1.map Value.text)))
  | exportEvent trace event attributes => do
    let (trace, _) ← trace.interpret library
    let (event, _) ← event.interpret library
    Run.emit (.event ⟨trace.text, event.text, ← Attribute.interpretAll library attributes⟩)

def Instruction.interpretAll : List Instruction → Run (Scoped σ) Unit
  | [] => return
  | instruction :: rest => do
    Instruction.interpret instruction
    Instruction.interpretAll rest

end

def interpret (plan : Plan) : Run (Scoped σ) Unit :=
  Program.complete (Instruction.interpretAll library plan.instructions)

end Plan

end ChainExtract
