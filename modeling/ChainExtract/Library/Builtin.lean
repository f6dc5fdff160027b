import ChainExtract.Error
import ChainExtract.Value

/-!
# Built-in operations

The operations that depend on nothing but their arguments. Each one says what
it needs of every argument, so an operation called with unsuitable values
fails and never guesses.
-/

namespace ChainExtract

/-- An operation on values. Overloads of one name are operations of their own. -/
inductive Builtin where
  | add
  | subtract
  | multiply
  | divide
  | mod
  | lessThan
  | greaterThan
  | equals
  | and
  | or
  | not
  | concat
  | toString
  | toStringRadix
  | toStringBytes
  | toHex
  | lengthList
  | lengthString
  | lengthBytes
  | contains
deriving DecidableEq, Repr

/-- The arguments of a call, with the name of the called method. -/
structure Arguments where
  method : String
  values : List Value

namespace Arguments

/-- The argument at an index, which must be there. -/
def value (args : Arguments) (index : Nat) : Except Error Value :=
  match args.values[index]? with
  | some value => .ok value
  | none => .error (.invalidParameters args.method s!"missing parameter {index}")

/-- The failure of an argument that is not what the method needs. -/
def mismatch (args : Arguments) (index : Nat) (expected : String) : Error :=
  .invalidParameters args.method s!"parameter {index} must be {expected}"

/-- The argument at an index as an integer. -/
def int (args : Arguments) (index : Nat) : Except Error Int := do
  match ← args.value index with
  | .int value => .ok value
  | _ => .error (args.mismatch index "an integer")

/-- The argument at an index as an integer other than zero. -/
def divisor (args : Arguments) (index : Nat) : Except Error Int := do
  let value ← args.int index
  if value = 0 then .error (.invalidParameters args.method "division by zero") else .ok value

/-- The argument at an index as a truth value. -/
def bool (args : Arguments) (index : Nat) : Except Error Bool := do
  match ← args.value index with
  | .bool value => .ok value
  | _ => .error (args.mismatch index "a boolean")

/-- The argument at an index as a text. -/
def str (args : Arguments) (index : Nat) : Except Error String := do
  match ← args.value index with
  | .str value => .ok value
  | _ => .error (args.mismatch index "a string")

/-- The argument at an index as a byte string. -/
def bytes (args : Arguments) (index : Nat) : Except Error Bytes := do
  match ← args.value index with
  | .bytes value => .ok value
  | _ => .error (args.mismatch index "bytes")

/-- The argument at an index as an address. -/
def addr (args : Arguments) (index : Nat) : Except Error Address := do
  match ← args.value index with
  | .addr value => .ok value
  | _ => .error (args.mismatch index "an address")

/-- The argument at an index as a list. -/
def list (args : Arguments) (index : Nat) : Except Error (List Value) := do
  match ← args.value index with
  | .list items => .ok items
  | _ => .error (args.mismatch index "a list")

/-- The argument at an index as a list of texts. -/
def strings (args : Arguments) (index : Nat) : Except Error (List String) := do
  (← args.list index).mapM fun
    | .str value => .ok value
    | _ => .error (args.mismatch index "a list of strings")

/-- The argument at an index as a radix with digits of its own: two to thirty-six. -/
def radix (args : Arguments) (index : Nat) : Except Error Nat := do
  let value ← args.int index
  if 2 ≤ value ∧ value ≤ 36 then .ok value.toNat
  else .error (.invalidParameters args.method "radix must be in 2..=36")

end Arguments

namespace Builtin

/-- The name by which calls refer to the operation. -/
def name : Builtin → String
  | add => "add"
  | subtract => "subtract"
  | multiply => "multiply"
  | divide => "divide"
  | mod => "mod"
  | lessThan => "lessThan"
  | greaterThan => "greaterThan"
  | equals => "equals"
  | and => "and"
  | or => "or"
  | not => "not"
  | concat => "concat"
  | toString | toStringRadix | toStringBytes => "toString"
  | toHex => "toHex"
  | lengthList | lengthString | lengthBytes => "length"
  | contains => "contains"

/-- The types that the operation declares for its parameters. -/
def parameters : Builtin → List ValueType
  | add | subtract | multiply | divide | mod | lessThan | greaterThan | toStringRadix => [.int, .int]
  | equals => [.any, .any]
  | and | or => [.bool, .bool]
  | not => [.bool]
  | concat => [.string, .string]
  | toString => [.any]
  | toStringBytes | lengthBytes => [.bytes]
  | toHex => [.int]
  | lengthList => [.list .any]
  | lengthString => [.string]
  | contains => [.list .any, .any]

/-- The type that the operation declares for its result. -/
def returns : Builtin → ValueType
  | add | subtract | multiply | divide | mod | lengthList | lengthString | lengthBytes => .int
  | lessThan | greaterThan | equals | and | or | not | contains => .bool
  | concat | toString | toStringRadix | toStringBytes | toHex => .string

/-- The result of the operation. Division rounds toward zero, and a remainder
has the sign of the dividend. -/
def apply (builtin : Builtin) (values : List Value) : Except Error Value := do
  let args : Arguments := ⟨builtin.name, values⟩
  match builtin with
  | add => return .int ((← args.int 0) + (← args.int 1))
  | subtract => return .int ((← args.int 0) - (← args.int 1))
  | multiply => return .int ((← args.int 0) * (← args.int 1))
  | divide =>
    -- a divisor that does not suit is told before the dividend
    let divisor ← args.divisor 1
    return .int ((← args.int 0).tdiv divisor)
  | mod =>
    let divisor ← args.divisor 1
    return .int ((← args.int 0).tmod divisor)
  | lessThan => return .bool (decide ((← args.int 0) < (← args.int 1)))
  | greaterThan => return .bool (decide ((← args.int 0) > (← args.int 1)))
  | equals => return .bool (decide ((← args.value 0) = (← args.value 1)))
  | and => if ← args.bool 0 then return .bool (← args.bool 1) else return .bool false
  | or => if ← args.bool 0 then return .bool true else return .bool (← args.bool 1)
  | not => return .bool (! (← args.bool 0))
  | concat => return .str ((← args.str 0) ++ (← args.str 1))
  | toString => return .str (← args.value 0).text
  | toStringRadix =>
    let radix ← args.radix 1
    return .str (Numeral.text radix (← args.int 0) "")
  | toStringBytes => return .str (← args.bytes 0).text
  | toHex => return .str (Numeral.text 16 (← args.int 0) "0x")
  | lengthList => return .int (← args.list 0).length
  | lengthString => return .int (← args.str 0).length
  | lengthBytes => return .int (← args.bytes 0).length
  | contains =>
    let needle ← args.value 1
    return .bool (decide (needle ∈ (← args.list 0)))

/-- The operations in the order in which the standard library offers them. -/
def all : List Builtin :=
  [add, subtract, multiply, divide, mod, lessThan, greaterThan, equals, and, or, not, concat,
    toString, toStringRadix, toStringBytes, toHex, lengthList, lengthString, lengthBytes, contains]

end Builtin

end ChainExtract
