import ChainExtract.Abi.Integer
import ChainExtract.Abi.TypeName
import ChainExtract.Abi.Value
import ChainExtract.Error
import ChainExtract.Value

/-!
# Values and contract values

Decoded contract values become values of the program: arrays and tuples are
lists, byte strings of fixed length keep their length. The other way a value
needs a contract type that it fits.
-/

namespace ChainExtract

namespace SolType

/-- The contract type that a text names, as an operand of a program. -/
def parse (text : String) : Except Error SolType :=
  match SolType.ofName text with
  | .ok type => .ok type
  | .error error => .error (.invalidParameters text error.message)

end SolType

namespace SolValue

mutual

/-- The value that a contract value becomes. -/
def toValue : SolValue → Value
  | bool value => .bool value
  | int value _ => .int (SolInteger.ofSigned value)
  | uint value _ => .int (SolInteger.ofUnsigned value)
  | fixedBytes word size => .bytes (word.bytes.take size)
  | address value => .addr value
  | function value => .bytes value.bytes
  | bytes value => .bytes value
  | string value => .str value
  | array items | fixedArray items | tuple items => .list (toValues items)

def toValues : List SolValue → List Value
  | [] => []
  | item :: items => item.toValue :: toValues items

end

end SolValue

namespace Value

/-- The failure of a value that a contract type does not take. -/
def encodingMismatch (value : Value) (type : SolType) : Error :=
  .invalidParameters "abi encoding" s!"cannot encode {value.text} as {type.name}"

mutual

/-- The contract value of a type that a value stands for. Integers must fit a
word, and byte strings and lists a length that the type fixes. -/
def toSol : (type : SolType) → Value → Except Error SolValue
  | .bool, bool value => .ok (.bool value)
  | .uint bits, int value =>
    match SolInteger.toUnsigned? value with
    | some word => .ok (.uint word bits)
    | none => .error (encodingMismatch (int value) (.uint bits))
  | .int bits, int value =>
    match SolInteger.toSigned? value with
    | some word => .ok (.int word bits)
    | none => .error (encodingMismatch (int value) (.int bits))
  | .address, addr value => .ok (.address value)
  | .bytes, bytes value => .ok (.bytes value)
  | .fixedBytes size, bytes value =>
    if value.length = size then .ok (.fixedBytes (.padRight 32 value) size)
    else .error (encodingMismatch (bytes value) (.fixedBytes size))
  | .string, str value => .ok (.string value)
  | .array element, list items => return .array (← toSolEach element items)
  | .fixedArray element size, list items =>
    if items.length = size then return .fixedArray (← toSolEach element items)
    else .error (encodingMismatch (list items) (.fixedArray element size))
  | .tuple components, list items =>
    if items.length = components.length then return .tuple (← toSolAll components items)
    else .error (encodingMismatch (list items) (.tuple components))
  | type, value => .error (encodingMismatch value type)

/-- The contract values of one type that values stand for. -/
def toSolEach (element : SolType) : List Value → Except Error (List SolValue)
  | [] => return []
  | item :: items => return (← toSol element item) :: (← toSolEach element items)

def toSolAll : List SolType → List Value → Except Error (List SolValue)
  | type :: types, item :: items => return (← toSol type item) :: (← toSolAll types items)
  | _, _ => return []

end

/-- The contract type that a value is encoded as when none is declared. A list
is encoded after its first element. -/
def defaultType : Value → SolType
  | bool _ => .bool
  | int value => if value < 0 then .int 256 else .uint 256
  | str _ => .string
  | bytes _ => .bytes
  | addr _ => .address
  | list [] => .array (.uint 256)
  | list (first :: _) => .array first.defaultType

end Value

end ChainExtract
