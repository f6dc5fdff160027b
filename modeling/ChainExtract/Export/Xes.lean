import ChainExtract.Error
import ChainExtract.Keyed
import ChainExtract.Number.Shortest
import ChainExtract.Text.Date
import ChainExtract.Value

/-!
# Event logs for process mining

Events are grouped into traces. Traces, events and attributes stand in the
order in which they were first seen; an attribute that is set again keeps its
place and takes the new value. Names and texts are written with entities for
the five characters that mark up a document.
-/

namespace ChainExtract

/-- The type that an attribute is declared to have. -/
inductive XesType where
  | boolean
  | date
  | float
  | int
  | string
deriving DecidableEq, Repr

/-- The name of an attribute type. -/
def XesType.name : XesType → String
  | boolean => "Boolean"
  | date => "Date"
  | float => "Float"
  | int => "Int"
  | string => "String"

/-- The attribute type that a document names. -/
def XesType.ofName? : String → Option XesType
  | "boolean" => some .boolean
  | "date" => some .date
  | "float" => some .float
  | "int" => some .int
  | "string" => some .string
  | _ => none

/-- The value of an attribute. -/
inductive XesValue where
  | boolean (value : Bool)
  | date (value : Instant)
  | float (value : Binary64)
  | int (value : Int)
  | string (value : String)
  | list (items : List XesValue)

namespace XesValue

/-- The failure of a value that an attribute type does not take. -/
def mismatch (type : XesType) (value : Value) : Error :=
  .invalidParameters "xes attribute" s!"cannot export {value.text} as {type.name}"

/-- Whether an integer fits 64 bits. -/
def fitsInt64 (value : Int) : Bool := -(Nat.pow 2 63 : Int) ≤ value && value < Nat.pow 2 63

mutual

/-- The attribute value of a value. Lists are taken element by element, and
integers that stand for dates count seconds. -/
def ofValue (type : XesType) : Value → Except Error XesValue
  | .list items => return .list (← ofValues type items)
  | .bool value =>
    match type with
    | .boolean => .ok (.boolean value)
    | .string => .ok (.string (Value.bool value).text)
    | .date | .float | .int => .error (mismatch type (.bool value))
  | .int value =>
    match type with
    | .date =>
      match Instant.ofSeconds? value with
      | some instant => .ok (.date instant)
      | none => .error (mismatch type (.int value))
    | .float => .ok (.float (.ofInt value))
    | .int => if fitsInt64 value then .ok (.int value) else .error (mismatch type (.int value))
    | .string => .ok (.string (Value.int value).text)
    | .boolean => .error (mismatch type (.int value))
  | .str value =>
    match type with
    | .float =>
      match Binary64.ofText? value with
      | some number => .ok (.float number)
      | none => .error (mismatch type (.str value))
    | .string => .ok (.string value)
    | .boolean | .date | .int => .error (mismatch type (.str value))
  | .bytes value =>
    match type with
    | .string => .ok (.string (Value.bytes value).text)
    | .boolean | .date | .float | .int => .error (mismatch type (.bytes value))
  | .addr value =>
    match type with
    | .string => .ok (.string (Value.addr value).text)
    | .boolean | .date | .float | .int => .error (mismatch type (.addr value))

/-- The attribute values of values, in order. -/
def ofValues (type : XesType) : List Value → Except Error (List XesValue)
  | [] => return []
  | item :: items => return (← ofValue type item) :: (← ofValues type items)

end

/-- The name of the element that holds a value. -/
def tag : XesValue → String
  | boolean _ => "boolean"
  | date _ => "date"
  | float _ => "float"
  | int _ => "int"
  | string _ => "string"
  | list _ => "list"

/-- The text of a value that is no list. -/
def text : XesValue → String
  | boolean value => if value then "true" else "false"
  | date value => value.text
  | float value => value.text
  | int value => Numeral.decimal value
  | string value => value
  | list _ => ""

end XesValue

/-- Attributes to be set on an event of a trace. -/
structure XesRecord where
  trace : String
  event : String
  attributes : List (String × XesValue)

/-- The attributes of an event. -/
abbrev XesEvent := Keyed String XesValue

/-- The events of a trace. -/
abbrev XesTrace := Keyed String XesEvent

/-- The traces of a log. -/
abbrev XesLog := Keyed String XesTrace

namespace XesLog

/-- Sets the attributes of a record. -/
def add (log : XesLog) (record : XesRecord) : XesLog :=
  Keyed.update log record.trace fun events? =>
    -- a record without attributes still makes its trace and event appear
    Keyed.update (events?.getD []) record.event fun attributes? =>
      record.attributes.foldl (fun attributes (key, value) => Keyed.set attributes key value)
        (attributes?.getD [])

/-- The apostrophe. -/
def apostrophe : Char := Char.ofNat 39

/-- The written form of a character. -/
def escapeChar (c : Char) : List Char :=
  if c = '&' then "&amp;".toList
  else if c = '<' then "&lt;".toList
  else if c = '>' then "&gt;".toList
  else if c = '"' then "&quot;".toList
  else if c = apostrophe then "&apos;".toList
  else [c]

/-- The written form of a text. -/
def escape (text : String) : String := String.ofList (text.toList.flatMap escapeChar)

/-- A line at a depth of indentation, which is two blanks. -/
def line (depth : Nat) (body : String) : String :=
  String.ofList (List.replicate (2 * depth) ' ') ++ body ++ "\n"

mutual

/-- The lines of an attribute. -/
def attributeLines (depth : Nat) (key : String) : XesValue → List String
  | .list items =>
    [line depth ("<list key=\"" ++ escape key ++ "\">"), line (depth + 1) "<values>"]
      ++ listLines (depth + 2) key items
      ++ [line (depth + 1) "</values>", line depth "</list>"]
  | value =>
    [line depth ("<" ++ value.tag ++ " key=\"" ++ escape key ++ "\" value=\""
      ++ escape value.text ++ "\"/>")]

/-- The lines of the elements of a list, each under the key of the list. -/
def listLines (depth : Nat) (key : String) : List XesValue → List String
  | [] => []
  | item :: items => attributeLines depth key item ++ listLines depth key items

end

/-- The lines of an event. -/
def eventLines (id : String) (attributes : XesEvent) : List String :=
  [line 2 "<event>"] ++ attributeLines 3 "identity:id" (.string id)
    ++ attributes.flatMap (fun (key, value) => attributeLines 3 key value)
    ++ [line 2 "</event>"]

/-- The lines of a trace. -/
def traceLines (id : String) (events : XesTrace) : List String :=
  [line 1 "<trace>"] ++ attributeLines 2 "concept:name" (.string id)
    ++ events.flatMap (fun event => eventLines event.1 event.2)
    ++ [line 1 "</trace>"]

/-- The lines in front of the traces. -/
def headerLines : List String :=
  [line 0 "<?xml version=\"1.0\" encoding=\"UTF-8\" ?>",
   line 0 "<log xes.version=\"1.0\" xes.features=\"nested-attributes\" xmlns=\"http://www.xes-standard.org/\">",
   line 1 "<extension name=\"Concept\" prefix=\"concept\" uri=\"http://www.xes-standard.org/concept.xesext\"/>",
   line 1 "<extension name=\"Identity\" prefix=\"identity\" uri=\"http://www.xes-standard.org/identity.xesext\"/>"]

/-- The document of a log. -/
def render (log : XesLog) : String :=
  String.join <| headerLines ++ log.flatMap (fun trace => traceLines trace.1 trace.2)
    ++ [line 0 "</log>"]

end XesLog

end ChainExtract
