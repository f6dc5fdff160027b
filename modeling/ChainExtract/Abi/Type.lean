import ChainExtract.Bytes
import ChainExtract.Text.Numeral
import ChainExtract.Value.Type

/-!
# Contract types

The types of the values that contracts take, return and log, their canonical
names, and how much room their encodings need.
-/

namespace ChainExtract

/-- A contract type. Integer sizes count bits, sizes of byte strings count
bytes. -/
inductive SolType where
  | bool
  | int (bits : Nat)
  | uint (bits : Nat)
  | fixedBytes (size : Nat)
  | address
  | function
  | bytes
  | string
  | array (element : SolType)
  | fixedArray (element : SolType) (size : Nat)
  | tuple (components : List SolType)

namespace SolType

mutual

/-- The canonical name of a type. A tuple of one component keeps a comma, so
that it is told apart from its component in parentheses. -/
def name : SolType → String
  | bool => "bool"
  | int bits => s!"int{bits}"
  | uint bits => s!"uint{bits}"
  | fixedBytes size => s!"bytes{size}"
  | address => "address"
  | function => "function"
  | bytes => "bytes"
  | string => "string"
  | array element => element.name ++ "[]"
  | fixedArray element size => element.name ++ s!"[{size}]"
  | tuple [component] => "(" ++ component.name ++ ",)"
  | tuple components => "(" ++ ",".intercalate (names components) ++ ")"

def names : List SolType → List String
  | [] => []
  | type :: types => type.name :: names types

end

/-- Whether a value of the type fills exactly one word, so that it can stand
in a topic as it is. -/
def isWord : SolType → Bool
  | bool | int _ | uint _ | fixedBytes _ | address | function => true
  | bytes | string | array _ | fixedArray _ _ | tuple _ => false

mutual

/-- Whether values of the type are written behind an offset. -/
def isDynamic : SolType → Bool
  | bytes | string | array _ => true
  | fixedArray element size => size != 0 && element.isDynamic
  | tuple components => anyDynamic components
  | bool | int _ | uint _ | fixedBytes _ | address | function => false

def anyDynamic : List SolType → Bool
  | [] => false
  | type :: types => type.isDynamic || anyDynamic types

end

mutual

/-- The least number of words that an encoding of the type takes, counting
only one for what stands behind an offset. -/
def minWords : SolType → Nat
  | fixedArray element size => size * element.minWords
  | tuple components => sumMinWords components
  | bool | int _ | uint _ | fixedBytes _ | address | function | bytes | string | array _ => 1

def sumMinWords : List SolType → Nat
  | [] => 0
  | type :: types => type.minWords + sumMinWords types

end

mutual

/-- Whether values of the type carry no information: tuples and arrays built
from nothing. -/
def isEmpty : SolType → Bool
  | array element => element.isEmpty
  | fixedArray element size => size == 0 || element.isEmpty
  | tuple components => allEmpty components
  | bool | int _ | uint _ | fixedBytes _ | address | function | bytes | string => false

def allEmpty : List SolType → Bool
  | [] => true
  | type :: types => type.isEmpty && allEmpty types

end

/-- The type of the values that values of a contract type are turned into. -/
def valueType : SolType → ValueType
  | bool => .bool
  | int _ | uint _ => .int
  | address => .address
  | string => .string
  | fixedBytes _ | function | bytes => .bytes
  | array element => .list element.valueType
  | fixedArray element _ => .list element.valueType
  | tuple _ => .list .any

end SolType

end ChainExtract
