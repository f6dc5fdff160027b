import ChainExtract.Abi.Value
import ChainExtract.Text.Utf8

/-!
# Encoding of contract values

A sequence of values is written as a head and a tail. The head holds the
static values themselves and, for each dynamic one, the offset at which its
encoding starts; the tail holds the encodings of the dynamic values.
-/

namespace ChainExtract

/-- The encoding of one component of a sequence: its bytes, and whether they
stand in the tail. -/
structure EncodedPart where
  inTail : Bool
  bytes : Bytes

namespace EncodedPart

/-- The number of bytes that the component takes in the head. -/
def headSize (part : EncodedPart) : Nat := if part.inTail then 32 else part.bytes.length

/-- The number of bytes that the heads of the components take together. -/
def headsSize : List EncodedPart → Nat
  | [] => 0
  | part :: parts => part.headSize + headsSize parts

/-- The heads of the components, the first tail starting at `offset`. -/
def heads (offset : Nat) : List EncodedPart → Bytes
  | [] => []
  | part :: parts =>
    if part.inTail then Bytes.ofNat 32 offset ++ heads (offset + part.bytes.length) parts
    else part.bytes ++ heads offset parts

def tails (parts : List EncodedPart) : Bytes :=
  parts.flatMap fun part => if part.inTail then part.bytes else []

def join (parts : List EncodedPart) : Bytes :=
  heads (headsSize parts) parts ++ tails parts

end EncodedPart

namespace SolValue

/-- A byte string behind its length, filled up to a whole number of words. -/
def encodeBytes (bytes : Bytes) : Bytes :=
  let words := (bytes.length + 31) / 32
  Bytes.ofNat 32 bytes.length ++ bytes ++ List.replicate (32 * words - bytes.length) 0

mutual

/-- The encoding of a value, as it stands in the head if the value is static
and in the tail if it is dynamic. -/
def encode : SolValue → Bytes
  | bool value => Bytes.ofNat 32 value.toNat
  | int value _ => Bytes.ofNat 32 (value % Nat.pow 2 256).toNat
  | uint value _ => Bytes.ofNat 32 value
  | fixedBytes word _ => word.bytes
  | address value => Bytes.ofNat 12 0 ++ value.bytes
  | function value => value.bytes ++ Bytes.ofNat 8 0
  | bytes value => encodeBytes value
  | string value => encodeBytes (Utf8.encode value)
  | array items => Bytes.ofNat 32 items.length ++ EncodedPart.join (parts items)
  | fixedArray items | tuple items => EncodedPart.join (parts items)

/-- The encoded components of a sequence. -/
def parts : List SolValue → List EncodedPart
  | [] => []
  | item :: items => ⟨item.isDynamic, item.encode⟩ :: parts items

end

/-- The encoding of the values as the parameters of a call. -/
def encodeParameters (values : List SolValue) : Bytes := EncodedPart.join (parts values)

end SolValue

end ChainExtract
