/-!
# Types of values

The types that signatures, variables and declared outputs carry, and the
relation that says where a value of one type may stand for another.
-/

namespace ChainExtract

/-- The type of a value. `any` stands only where values of every type are
expected, or for the elements of a list of mixed content. -/
inductive ValueType where
  | any
  | bool
  | int
  | string
  | bytes
  | address
  | list (element : ValueType)
deriving DecidableEq, Repr

namespace ValueType

/-- Whether a value of the second type may stand where the first is expected:
`any` takes everything, lists are compared by their elements, and the other
types take only themselves. -/
def accepts : (expected actual : ValueType) → Bool
  | any, _ => true
  | list expected, list actual => accepts expected actual
  | bool, bool | int, int | string, string | bytes, bytes | address, address => true
  | _, _ => false

/-- The name of a type; a list is named by its elements, followed by `[]`. -/
def text : ValueType → String
  | any => "any"
  | bool => "bool"
  | int => "int"
  | string => "string"
  | bytes => "bytes"
  | address => "address"
  | list element => element.text ++ "[]"

/-- The type that elements of the given types have in common: their type if
they all have one and the same, otherwise `any`. -/
def common : List ValueType → ValueType
  | [] => any
  | first :: rest => if rest.all (· == first) then first else any

end ValueType

end ChainExtract
