import ChainExtract.Abi.Type

/-!
# Contract values

Values of contract types, in the form in which they are encoded: integers and
fixed byte strings carry the size that their type declares.
-/

namespace ChainExtract

inductive SolValue where
  | bool (value : Bool)
  | int (value : Int) (bits : Nat)
  | uint (value : Nat) (bits : Nat)
  | fixedBytes (word : Word) (size : Nat)
  | address (value : Address)
  | function (value : FixedBytes 24)
  | bytes (value : Bytes)
  | string (value : String)
  | array (items : List SolValue)
  | fixedArray (items : List SolValue)
  | tuple (items : List SolValue)

namespace SolValue

mutual

/-- Whether the value is written behind an offset. -/
def isDynamic : SolValue → Bool
  | bytes _ | string _ | array _ => true
  | fixedArray items | tuple items => anyDynamic items
  | bool _ | int _ _ | uint _ _ | fixedBytes _ _ | address _ | function _ => false

def anyDynamic : List SolValue → Bool
  | [] => false
  | item :: items => item.isDynamic || anyDynamic items

end

/-- The components of a value that is made of others. -/
def items : SolValue → List SolValue
  | array items | fixedArray items | tuple items => items
  | bool _ | int _ _ | uint _ _ | fixedBytes _ _ | address _ | function _ | bytes _ | string _ => []

end SolValue

end ChainExtract
