import ChainExtract.Abi.Value
import ChainExtract.Text.Utf8

/-!
# Decoding of contract values

Values are read word by word from an area of bytes. An offset opens a new
reader on the area that starts there, and readers nest at most sixteen deep.
Padding, ranges and unread bytes are not looked at.
-/

namespace ChainExtract

/-- Why bytes hold no value of a type. -/
inductive AbiError where
  | overrun
  | tooDeep
  /-- The type does not describe a parameter list. -/
  | notSequence
deriving DecidableEq, Repr

def AbiError.depthLimit : Nat := 16

def AbiError.message : AbiError → String
  | overrun => "ABI decoding failed: buffer overrun while deserializing"
  | tooDeep => s!"ABI decoding failed: recursion limit of {depthLimit} exceeded during decoding"
  | notSequence => "Called decode_sequence_populate on non-sequence token"

/-- A position in an area of bytes: the whole area, the bytes not yet read,
and the number of readers around it. -/
structure AbiReader where
  area : Bytes
  rest : Bytes
  depth : Nat

namespace AbiReader

/-- The outermost reader, at the start of the bytes. -/
def ofBytes (bytes : Bytes) : AbiReader := ⟨bytes, bytes, 0⟩

/-- The number of whole words not yet read. -/
def remainingWords (reader : AbiReader) : Nat := reader.rest.length / 32

def word (reader : AbiReader) : Except AbiError (Word × AbiReader) :=
  if h : (reader.rest.take 32).length = 32 then
    .ok (⟨reader.rest.take 32, h⟩, { reader with rest := reader.rest.drop 32 })
  else .error .overrun

/-- Reads an offset or length: the last eight bytes of a word. -/
def offset (reader : AbiReader) : Except AbiError (Nat × AbiReader) := do
  let (word, reader) ← reader.word
  return (Bytes.toNat (word.bytes.drop 24), reader)

/-- The reader on the area that starts with the given bytes. -/
def nested (reader : AbiReader) (area : Bytes) : Except AbiError AbiReader :=
  if AbiError.depthLimit ≤ reader.depth then .error .tooDeep
  else .ok ⟨area, area, reader.depth + 1⟩

/-- Reads an offset and opens the area that starts there. -/
def indirection (reader : AbiReader) : Except AbiError (AbiReader × AbiReader) := do
  let (offset, reader) ← reader.offset
  if AbiError.depthLimit ≤ reader.depth then .error .tooDeep
  else if reader.area.length < offset then .error .overrun
  else return (⟨reader.area.drop offset, reader.area.drop offset, reader.depth + 1⟩, reader)

/-- Reads a byte string behind its length. -/
def packed (reader : AbiReader) : Except AbiError (Bytes × AbiReader) := do
  let (inner, reader) ← reader.indirection
  let (size, inner) ← inner.offset
  if inner.rest.length < size then .error .overrun
  else return (inner.rest.take size, reader)

/-- Reads `count` values of one kind. -/
def repeated (read : AbiReader → Except AbiError (SolValue × AbiReader)) :
    (count : Nat) → AbiReader → Except AbiError (List SolValue × AbiReader)
  | 0, reader => return ([], reader)
  | count + 1, reader => do
    let (value, reader) ← read reader
    let (values, reader) ← repeated read count reader
    return (value :: values, reader)

/-- Reads a sequence whose length its type fixes: behind an offset if it is
dynamic, otherwise in place. -/
def sequence (reader : AbiReader) (dynamic : Bool)
    (read : AbiReader → Except AbiError (List SolValue × AbiReader)) :
    Except AbiError (List SolValue × AbiReader) := do
  if dynamic then
    let (inner, reader) ← reader.indirection
    let (values, _) ← read inner
    return (values, reader)
  else
    let inner ← reader.nested reader.rest
    let (values, inner) ← read inner
    return (values, { reader with rest := inner.rest })

end AbiReader

namespace SolType

/-- The signed reading of a word, whose highest bit counts negatively. -/
def signed (word : Word) : Int :=
  let n := word.toNat
  if n < Nat.pow 2 255 then n else (n : Int) - Nat.pow 2 256

mutual

/-- Reads a value of the type. -/
def decode : SolType → AbiReader → Except AbiError (SolValue × AbiReader)
  | bool, reader => do
    let (word, reader) ← reader.word
    return (.bool (word.toNat != 0), reader)
  | int bits, reader => do
    let (word, reader) ← reader.word
    return (.int (signed word) bits, reader)
  | uint bits, reader => do
    let (word, reader) ← reader.word
    return (.uint word.toNat bits, reader)
  | fixedBytes size, reader => do
    let (word, reader) ← reader.word
    return (.fixedBytes word size, reader)
  | address, reader => do
    let (word, reader) ← reader.word
    return (.address (.ofNat 20 word.toNat), reader)
  | function, reader => do
    let (word, reader) ← reader.word
    return (.function (.padRight 24 word.bytes), reader)
  | bytes, reader => do
    let (content, reader) ← reader.packed
    return (.bytes content, reader)
  | string, reader => do
    let (content, reader) ← reader.packed
    return (.string (Utf8.decodeLossy content), reader)
  | array element, reader => do
    let (inner, reader) ← reader.indirection
    let (size, inner) ← inner.offset
    if size = 0 then return (.array [], reader)
    -- a length without room for its items fails before any item is read
    if inner.remainingWords < element.minWords * size then .error .overrun
    let items ← inner.nested inner.rest
    let (values, _) ← items.repeated (fun reader => element.decode reader) size
    return (.array values, reader)
  | fixedArray element size, reader => do
    let dynamic := size != 0 && element.isDynamic
    let (values, reader) ← reader.sequence dynamic fun inner =>
      inner.repeated (fun reader => element.decode reader) size
    return (.fixedArray values, reader)
  | tuple components, reader => do
    let (values, reader) ← reader.sequence (anyDynamic components) fun inner =>
      decodeAll components inner
    return (.tuple values, reader)

def decodeAll : List SolType → AbiReader → Except AbiError (List SolValue × AbiReader)
  | [], reader => return ([], reader)
  | type :: types, reader => do
    let (value, reader) ← type.decode reader
    let (values, reader) ← decodeAll types reader
    return (value :: values, reader)

end

/-- The value of a type without information. -/
def emptyValue : SolType → SolValue
  | array _ => .array []
  | fixedArray _ _ => .fixedArray []
  | _ => .tuple []

/-- Decodes bytes by a reading function. Values without information are not
read at all, and the bytes must hold the least number of words. -/
def decodeWith (type : SolType) (bytes : Bytes)
    (read : AbiReader → Except AbiError (SolValue × AbiReader)) : Except AbiError SolValue := do
  if type.isEmpty then return type.emptyValue
  let reader := AbiReader.ofBytes bytes
  if reader.remainingWords < type.minWords then .error .overrun
  let (value, _) ← read reader
  return value

/-- Decodes bytes that hold one value of the type. -/
def decodeValue (type : SolType) (bytes : Bytes) : Except AbiError SolValue :=
  type.decodeWith bytes type.decode

/-- Decodes bytes as a parameter list that the type describes. -/
def decodeSequence (type : SolType) (bytes : Bytes) : Except AbiError SolValue :=
  type.decodeWith bytes fun reader =>
    match type with
    | tuple components => do
      let (values, reader) ← decodeAll components reader
      return (.tuple values, reader)
    | fixedArray element size => do
      let (values, reader) ← reader.repeated element.decode size
      return (.fixedArray values, reader)
    | array element => (array element).decode reader
    | _ => .error .notSequence

end SolType

end ChainExtract
