import ChainExtract.Abi.Conversion
import ChainExtract.Abi.Decoding
import ChainExtract.Hash.Keccak

/-!
# Events

An event is declared by its name and parameters. Its log entries carry the
hash of the declaration in their first topic, one further topic for each
indexed parameter, and the other parameters in their data.
-/

namespace ChainExtract

structure EventParameter where
  name : String
  declared : String
  indexed : Bool
  type : SolType

namespace EventParameter

def ofDeclared (name declared : String) (indexed : Bool) : Except Error EventParameter :=
  return ⟨name, declared, indexed, ← SolType.parse declared⟩

/-- The type of the decoded value. An indexed value that does not fill exactly
one word is known by its hash only. -/
def valueType (parameter : EventParameter) : ValueType :=
  if parameter.indexed && !parameter.type.isWord then .bytes else parameter.type.valueType

/-- The value of an indexed parameter: what its topic encodes, or the topic
itself where it is a hash. -/
def decodeTopic (parameter : EventParameter) (topic : Word) : Except Error Value :=
  if parameter.type.isWord then
    match parameter.type.decodeValue topic.bytes with
    | .ok value => .ok value.toValue
    | .error error => .error (.decode parameter.name error.message)
  else .ok (.bytes topic.bytes)

end EventParameter

structure EventDecl where
  name : String
  parameters : List EventParameter

namespace EventDecl

/-- The canonical text of the declaration. -/
def canonical (event : EventDecl) : String :=
  event.name ++ "(" ++ ",".intercalate (event.parameters.map (·.type.name)) ++ ")"

/-- The hash that names the event in the first topic of its log entries. -/
def topic (event : EventDecl) : Word := Keccak.hashText event.canonical

/-- Whether a log entry with these topics belongs to the event. -/
def matchesTopics (event : EventDecl) (topics : List Word) : Bool :=
  match topics with
  | [] => false
  | first :: _ => first == event.topic

def indexedCount (event : EventDecl) : Nat := event.parameters.countP (·.indexed)

/-- The tuple of the parameters that stand in the data. -/
def bodyType (event : EventDecl) : SolType :=
  .tuple ((event.parameters.filter (!·.indexed)).map (·.type))

/-- Gives each parameter the next topic or the next value of the data,
according to whether it is indexed. -/
def assign (event : EventDecl) :
    List EventParameter → List Word → List SolValue → Except Error (List (String × Value))
  | [], _, _ => return []
  | parameter :: rest, topics, body =>
    if parameter.indexed then
      match topics with
      | [] => .error (.decode event.name "missing topic")
      | topic :: topics => do
        let value ← parameter.decodeTopic topic
        return (parameter.name, value) :: (← event.assign rest topics body)
    else
      match body with
      | [] => .error (.decode event.name "missing data")
      | value :: body => return (parameter.name, value.toValue) :: (← event.assign rest topics body)

/-- The parameters of a log entry in the order of their declaration. -/
def decode (event : EventDecl) (topics : List Word) (data : Bytes) :
    Except Error (List (String × Value)) := do
  let indexed := event.indexedCount
  if topics.length ≠ indexed + 1 then
    .error (.decode event.name
      s!"expected {indexed + 1} topics for {indexed} indexed parameters, found {topics.length}")
  match event.bodyType.decodeSequence data with
  | .error error => .error (.decode event.name error.message)
  | .ok body => event.assign event.parameters topics.tail body.items

end EventDecl

end ChainExtract
