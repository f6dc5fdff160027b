import ChainExtract.Library.Builtin

/-!
# The method library

Methods are kept in the order of their registration. A call goes to the
method of exactly its signature, or else to the only method that accepts it;
the library never picks one of several.
-/

namespace ChainExtract

inductive Behaviour where
  | builtin (operation : Builtin)
  /-- Reads public state of a contract as of the block being visited. -/
  | readContract
  /-- Returns the same value whatever the arguments. -/
  | constant (value : Value)
deriving DecidableEq

/-- A method: how it is called, what it returns, and what it does. -/
structure Method where
  signature : Signature
  returns : ValueType
  behaviour : Behaviour
deriving DecidableEq

namespace Method

/-- The failure of the first argument that the method does not accept, if any. -/
def mismatch? (method : Method) (arguments : List Value) : Option Error :=
  let refused := (method.signature.parameters.zip arguments).zipIdx.find? fun ((expected, value), _) =>
    !expected.accepts value.type
  refused.map fun ((expected, value), position) =>
    .invalidParameters method.signature.text
      s!"parameter {position} must be {expected.text}, got {value.type.text}"

/-- Refuses arguments of the wrong number or type. -/
def validate (method : Method) (arguments : List Value) : Except Error Unit :=
  let expected := method.signature.parameters.length
  if arguments.length ≠ expected then
    .error (.invalidParameters method.signature.text
      s!"expected {expected} parameters, got {arguments.length}")
  else
    match method.mismatch? arguments with
    | some error => .error error
    | none => .ok ()

def ofBuiltin (operation : Builtin) : Method where
  signature := ⟨operation.name, operation.parameters⟩
  returns := operation.returns
  behaviour := .builtin operation

/-- The method that reads public state of a contract: the contract, the
member, its inputs and the declared types of what it returns. -/
def readContract : Method where
  signature := ⟨"readContract", [.address, .string, .list .any, .list .string]⟩
  returns := .list .any
  behaviour := .readContract

end Method

/-- The methods that programs can call, in the order of their registration. -/
structure Library where
  methods : List Method := []
deriving DecidableEq

namespace Library

def empty : Library := {}

/-- Whether a method of exactly this signature is registered. -/
def contains (library : Library) (signature : Signature) : Bool :=
  library.methods.any (·.signature == signature)

/-- Registers a method, unless its signature is taken. -/
def add (library : Library) (method : Method) : Except Error Library :=
  if library.contains method.signature then
    .error (.invalidLibrary s!"method {method.signature.text} is already registered")
  else
    .ok ⟨library.methods ++ [method]⟩

/-- The registered methods that accept a call. -/
def candidates (library : Library) (call : Signature) : List Method :=
  library.methods.filter (·.signature.accepts call)

/-- The method that a call goes to. -/
def resolve (library : Library) (call : Signature) : Except Error Method :=
  -- a method of exactly these types goes before all that accept them
  match library.methods.find? (·.signature == call) with
  | some exact => .ok exact
  | none =>
    match library.candidates call with
    | [] => .error (.noSuchMethod call)
    | [only] => .ok only
    | several => .error (.ambiguousMethod call (several.map (·.signature)))

def size (library : Library) : Nat := library.methods.length

/-- The library of the built-in operations and the reading of contracts. -/
def standard : Library := ⟨Builtin.all.map Method.ofBuiltin ++ [Method.readContract]⟩

end Library

end ChainExtract
