import ChainExtract.Chain.Variable
import ChainExtract.Plan
import ChainExtract.Plan.CompileError
import ChainExtract.Plan.Names
import ChainExtract.Program.Execute

/-!
# Compilation

A plan becomes a program: names are resolved to storage names, calls to
methods, and every operand gets a type, so that what does not fit is refused
before the first block is fetched. Operands of unknown type are let pass.
-/

namespace ChainExtract

abbrev Compiler (α : Type) := StateT Names (Except CompileError) α

namespace Compiler

variable {α : Type}

/-- Takes what the library or the contract types say. -/
def ofExcept (result : Except Error α) : Compiler α :=
  StateT.lift (result.mapError .refused)

/-- Compiles a body in a frame of its own. -/
def nested (body : Compiler α) : Compiler α := do
  modify Names.enter
  let result ← body
  modify Names.leave
  return result

def declare (name : String) (type : ValueType) : Compiler String :=
  modifyGet fun names => names.declare name type

/-- The storage name to which a value of a type is assigned. -/
def assign (name : String) (type : ValueType) : Compiler String :=
  modifyGet fun names => names.assign name type

/-- Refuses an instruction that does not stand in one of the places. -/
def requirePlace (instruction required : String) (places : List (Option Scope))
    (place : Option Scope) : Compiler Unit :=
  if places.contains place then return else throw (.misplaced instruction required)

end Compiler

namespace Plan

/-- The integer that a text gives, in decimal or behind `0x` in hexadecimal
digits. Behind the first digit there may be low lines. -/
def integer? (text : String) : Option Int :=
  let (radix, cs) := match text.toList with
    | '0' :: 'x' :: cs => (16, cs)
    | cs => (10, cs)
  let (negative, digits) := Binary64.signed cs
  if digits.head? = some '_' then none
  else (Numeral.ofDigits? radix (digits.filter (· ≠ '_'))).map fun n => if negative then -n else n

mutual

/-- The value of a literal. Null, objects and numbers that are not whole have
none. -/
def literal : JsonValue → Except CompileError Value
  | .scalar (.bool b) => .ok (.bool b)
  | .scalar (.integer n) => .ok (.int n)
  | .scalar (.string s) => .ok (.str s)
  | .list items => return .list (← literals items)
  | value => .error (.invalidLiteral value.text)

def literals : List JsonValue → Except CompileError (List Value)
  | [] => return []
  | item :: items => return (← literal item) :: (← literals items)

end

/-- The type of a list of which the types of the items are known. -/
def listType : List ValueType → ValueType
  | [] => .list .any
  | first :: rest => if rest.all (· == first) then .list first else .list .any

/-- The method of a call, and the storage name for its result. -/
def resolveCall (library : Library) (name : String) (types : List ValueType)
    (result : Option String) : Compiler (Method × Option String) := do
  let method ← Compiler.ofExcept (library.resolve ⟨name, types⟩)
  match result with
  | none => return (method, none)
  | some result => return (method, some (← Compiler.assign result method.returns))

section

variable (library : Library) (place : Option Scope)

mutual

/-- Compiles an operand and finds its type. -/
def Operand.compile : Operand → Compiler (ChainExtract.Operand × ValueType)
  | .stored name => do
    match (← get).find? name with
    | some declared => return (.stored declared.storage, declared.type)
    | none => throw (.undefinedVariable name)
  | .chain name => do
    match ChainVariable.find? name with
    | none => throw (.unknownChainVariable name)
    | some var =>
      if place.any var.scope.visibleIn then return (.chain name, var.type)
      else throw (.outOfScope name var.scope)
  | .call name arguments result => do
    let (arguments, types) ← Operand.compileAll arguments
    let (method, result) ← resolveCall library name types result
    return (.call method arguments result, method.returns)
  | .list items => do
    let (items, types) ← Operand.compileAll items
    return (.list items, listType types)
  | .address value => return (.literal (.addr value), .address)
  | .bytes value => return (.literal (.bytes value), .bytes)
  | .integer text => do
    match integer? text with
    | some n => return (.literal (.int n), .int)
    | none => throw (.invalidLiteral text)
  | .literal json => do
    let value ← StateT.lift (Plan.literal json)
    return (.literal value, value.type)

def Operand.compileAll :
    List Operand → Compiler (List ChainExtract.Operand × List ValueType)
  | [] => return ([], [])
  | operand :: operands => do
    let (compiled, type) ← Operand.compile operand
    let (rest, types) ← Operand.compileAll operands
    return (compiled :: rest, type :: types)

end

namespace Operand

/-- Compiles an operand whose value must be of a type. -/
def compileTyped (context : String) (expected : ValueType) (operand : Operand) :
    Compiler ChainExtract.Operand := do
  let (compiled, actual) ← compile library place operand
  if actual = .any ∨ expected.accepts actual then return compiled
  else throw (.typeMismatch context expected actual)

def compile? (compile : Operand → Compiler ChainExtract.Operand) :
    Option Operand → Compiler (Option ChainExtract.Operand)
  | none => return none
  | some operand => some <$> compile operand

/-- Compiles an operand that gives an address or a list of addresses. -/
def compileAddresses (context : String) (operand : Operand) : Compiler ChainExtract.Operand := do
  let (compiled, actual) ← compile library place operand
  match actual with
  | .any | .address | .list .any | .list .address => return compiled
  | actual => throw (.typeMismatch context (.list .address) actual)

end Operand

/-- Compiles the parameters of an event, which are declared as variables. -/
def Parameter.compileAll : List Parameter → Compiler (List EventParameter)
  | [] => return []
  | parameter :: parameters => do
    let declared ← Compiler.ofExcept
      (EventParameter.ofDeclared parameter.name parameter.type parameter.indexed)
    let storage ← Compiler.declare parameter.name declared.valueType
    return { declared with name := storage } :: (← Parameter.compileAll parameters)

/-- Compiles the results of a contract member, which are declared as variables. -/
def MemberOutput.compileAll : List MemberOutput → Compiler (List (String × String))
  | [] => return []
  | output :: outputs => do
    let type ← Compiler.ofExcept (SolType.parse output.type)
    let storage ← Compiler.declare output.name type.valueType
    return (storage, output.type) :: (← MemberOutput.compileAll outputs)

/-- Compiles the inputs of the questions to a contract. -/
def MemberQuery.compileInputs : List MemberQuery → Compiler (List (List ChainExtract.Operand))
  | [] => return []
  | query :: queries => do
    let (inputs, _) ← Operand.compileAll library place query.inputs
    return inputs :: (← MemberQuery.compileInputs queries)

/-- Compiles questions whose inputs have been compiled. -/
def MemberQuery.compileAll :
    List MemberQuery → List (List ChainExtract.Operand) → Compiler (List MemberRead)
  | query :: queries, inputs :: rest => do
    let outputs ← MemberOutput.compileAll query.outputs
    return ⟨query.member, inputs, outputs⟩ :: (← MemberQuery.compileAll queries rest)
  | _, _ => return []

def Operand.compileNamed :
    List (String × Operand) → Compiler (List (String × ChainExtract.Operand))
  | [] => return []
  | (name, operand) :: rest => do
    let (compiled, _) ← Operand.compile library place operand
    return (name, compiled) :: (← Operand.compileNamed rest)

def Attribute.compileAll : List Attribute → Compiler (List AttributeOperand)
  | [] => return []
  | first :: rest => do
    let (value, _) ← Operand.compile library place first.value
    return ⟨first.key, first.type, value⟩ :: (← Attribute.compileAll rest)

end

namespace Instruction

variable (library : Library)

mutual

/-- Compiles an instruction at a place: the kind of item being visited there,
if any. -/
def compile (place : Option Scope) : Instruction → Compiler (ChainExtract.Instruction Empty)
  | blocks first last body => do
    Compiler.requirePlace "a block range" "outside of other filters" [none] place
    let first ← Operand.compileTyped library place "block range start" .int first
    let last ← Operand.compile?
      (Operand.compileTyped library place "block range end" .int) last
    return .blocks first last (← Compiler.nested (compileAll (some .block) body))
  | transactions senders recipients body => do
    Compiler.requirePlace "a transaction filter" "within a block range" [some .block] place
    let senders ← Operand.compile? (Operand.compileAddresses library place "senders") senders
    let recipients ← Operand.compile?
      (Operand.compileAddresses library place "recipients") recipients
    return .transactions senders recipients
      (← Compiler.nested (compileAll (some .transaction) body))
  | logEntries event parameters emitters body => do
    Compiler.requirePlace "a log entry filter" "within a transaction filter"
      [some .transaction] place
    let emitters ← Operand.compile?
      (Operand.compileAddresses library place "log entry addresses") emitters
    Compiler.nested do
      -- the parameters share a frame with the body
      let parameters ← Parameter.compileAll parameters
      return .logEntries ⟨event, parameters⟩ emitters (← compileAll (some .logEntry) body)
  | when condition body => do
    let condition ← Operand.compileTyped library place "condition" .bool condition
    return .when condition (← Compiler.nested (compileAll place body))
  | contract address queries body => do
    Compiler.requirePlace "a smart contract filter" "within a block range"
      [some .block, some .transaction, some .logEntry] place
    let address ← Operand.compileTyped library place "smart contract" .address address
    -- all inputs come before all outputs, and outside of the frame of the outputs
    let inputs ← MemberQuery.compileInputs library place queries
    Compiler.nested do
      let reads ← MemberQuery.compileAll queries inputs
      return .contract address reads (← compileAll place body)
  | assign target value => do
    -- the value comes first, so that it does not see the variable it declares
    let (value, type) ← Operand.compile library place value
    return .assign (← Compiler.assign target type) value
  | call name arguments result => do
    let (arguments, types) ← Operand.compileAll library place arguments
    let (method, result) ← resolveCall library name types result
    return .call method arguments result
  | exportRow table columns => do
    return .exportRow table (← Operand.compileNamed library place columns)
  | exportLine parts => do
    let (parts, _) ← Operand.compileAll library place parts
    return .exportLine parts
  | exportEvent trace event attributes => do
    let (trace, _) ← Operand.compile library place trace
    let (event, _) ← Operand.compile library place event
    return .exportEvent trace event (← Attribute.compileAll library place attributes)

def compileAll (place : Option Scope) :
    List Instruction → Compiler (List (ChainExtract.Instruction Empty))
  | [] => return []
  | instruction :: rest => do
    let compiled ← compile place instruction
    return compiled :: (← compileAll place rest)

end

end Instruction

def compile (library : Library) (plan : Plan) : Except CompileError (Program Empty) :=
  StateT.run' (Instruction.compileAll library none plan.instructions) {}

def sinks (plan : Plan) : List Sink := plan.outputs.map Output.sink

end Plan

end ChainExtract
