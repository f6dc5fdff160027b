import ChainExtract.Plan
import ChainExtract.Plan.Fields

/-!
# Plan documents

The reading of plans from JSON documents. Instructions are strict about the
names of their fields, while operands and outputs are lenient: an operand is
whatever form of operand the value fits first, and a literal if it fits none.
-/

namespace ChainExtract.Plan

/-- The value of a member that is given exactly once. -/
def unique? (name : String) (members : List (String × JsonValue)) : Option JsonValue :=
  match members.filter (·.1 == name) with
  | [(_, value)] => some value
  | _ => none

def string? : JsonValue → Option String
  | .scalar (.string s) => some s
  | _ => none

/-- The bytes that a string gives in hexadecimal digits. -/
def hexBytes? (s : String) : Option Bytes :=
  match s.toList with
  | '0' :: 'x' :: digits | '0' :: 'X' :: digits => Bytes.ofHex? digits
  | digits => Bytes.ofHex? digits

def byte? : JsonValue → Option UInt8
  | .scalar (.integer n) => if 0 ≤ n ∧ n < 256 then some (UInt8.ofNat n.toNat) else none
  | _ => none

/-- The bytes that a value gives, as hexadecimal text or one by one. -/
def bytes? : JsonValue → Option Bytes
  | .scalar (.string s) => hexBytes? s
  | .list items => items.mapM byte?
  | _ => none

/-- The address that a value gives, as hexadecimal text or byte by byte. In a
list one further item passes if it is no byte. -/
def address? (value : JsonValue) : Option Address := do
  let bytes ← match value with
    | .list items =>
      match items[20]? with
      -- the end of a list is found by asking for one more byte
      | some last => if (byte? last).isSome then none else items.dropLast.mapM byte?
      | none => items.mapM byte?
    | value => bytes? value
  if h : bytes.length = 20 then some ⟨bytes, h⟩ else none

namespace Operand

/-- The parts of a call that a value gives, its arguments read by `operand`. -/
def call? (operand : JsonValue → Operand) (value : JsonValue) : Option Operand := do
  let operands? : JsonValue → Option (List Operand)
    | .list items => some (items.map operand)
    | _ => none
  let result? : JsonValue → Option (Option String)
    | .scalar .null => some none
    | value => some <$> string? value
  match value with
  | .list [method, arguments, result] =>
    return call (← string? method) (← operands? arguments) (← result? result)
  | .record members =>
    let given (name : String) : Bool := members.any (·.1 == name)
    if members.all fun (name, _) => ["method", "parameters", "result"].contains name then
      let method ← unique? "method" members >>= string?
      let arguments ← if given "parameters" then unique? "parameters" members >>= operands?
        else some []
      let result ← if given "result" then unique? "result" members >>= result? else some none
      return call method arguments result
    else none
  | _ => none

/-- The operand that a value describes, nested `depth` levels deep at most. -/
def ofJson : (depth : Nat) → JsonValue → Operand
  | 0, value => literal value
  | depth + 1, value =>
    match value with
    | .record members =>
      let form? (name : String) (read : JsonValue → Option Operand) : Option Operand :=
        unique? name members >>= read
      let items? : JsonValue → Option Operand
        | .list items => some (.list (items.map (ofJson depth)))
        | _ => none
      -- the order matters where a value has members for several forms
      let operand? := form? "var" (fun v => stored <$> string? v)
        <|> form? "chain" (fun v => chain <$> string? v)
        <|> form? "call" (call? (ofJson depth))
        <|> form? "list" items?
        <|> form? "address" (fun v => address <$> address? v)
        <|> form? "bytes" (fun v => bytes <$> bytes? v)
        <|> form? "int" (fun v => integer <$> string? v)
      operand?.getD (literal value)
    | value => literal value

def read (tree : JsonTree) : Reading Operand :=
  match tree.value with
  | .ok value => .ok (ofJson JsonTree.nestingLimit value)
  | .error fault => .error (.ofJson fault)

end Operand

namespace Output

/-- The mode that a value names, possibly as an object with nothing under the
name. -/
def mode? : JsonValue → Option SinkMode
  | .scalar (.string name) => named? name
  | .record [(name, .scalar .null)] | .record [(name, .record [])] => named? name
  | _ => none
where
  named? : String → Option SinkMode
    | "batch" => some .batch
    | "streaming" => some .streaming
    | _ => none

/-- The delimiter that a value gives, which is a comma if it gives none. -/
def delimiter? : JsonValue → Option Char
  | .scalar .null => some ','
  | .scalar (.string s) =>
    match s.toList with
    | [c] => some c
    | _ => none
  | _ => none

/-- A named format with the default delimiter. -/
def formatNamed? : String → Option Format
  | "csv" => some (.csv ',')
  | "log" => some .log
  | "xes" => some .xes
  | _ => none

def readFormat (tree : JsonTree) : Reading Format := do
  match formatNamed? (← Reading.string tree) with
  | some format => return format
  | none => throw (.unfit [])

/-- An output of a format with further members. Members that the format does
not know are ignored. -/
def ofMembers? (format : Format) (members : List (String × JsonValue)) : Option Output := do
  let member? {α : Type} (name : String) (absent : α) (read : JsonValue → Option α) : Option α :=
    if members.any (·.1 == name) then unique? name members >>= read else some absent
  let mode ← member? "mode" .batch mode?
  match format with
  | .csv delimiter => return ⟨.csv (← member? "delimiter" delimiter delimiter?), mode⟩
  | format => return ⟨format, mode⟩

/-- An output of a format with further items. -/
def ofItems? (format : Format) (items : List JsonValue) : Option Output := do
  match format, items with
  | .csv _, [mode, delimiter] => return ⟨.csv (← delimiter? delimiter), ← mode? mode⟩
  | .csv _, _ => none
  | format, [] => return ⟨format, .batch⟩
  | format, [mode] => return ⟨format, ← mode? mode⟩
  | _, _ => none

/-- Reads the members of an output: its format, given exactly once, and the
values of the others. -/
def members (format? : Option Format) :
    List (String × JsonTree) → Reading (Option Format × List (String × JsonValue))
  | [] => .ok (format?, [])
  | (name, tree) :: rest => do
    if name = "format" then
      if format?.isSome then throw (.unfit [])
      members (some (← Reading.under (.member name) (readFormat tree))) rest
    else
      let value ← tree.value.mapError .ofJson
      let (format?, others) ← members format? rest
      return (format?, (name, value) :: others)

/-- Reads an output: an object, or a list that begins with the format. -/
def read : JsonTree → Reading Output
  | .record trees broken => do
    let (format?, others) ← members none trees
    Reading.ending broken ()
    match format? >>= (ofMembers? · others) with
    | some output => return output
    | none => throw (.unfit [])
  | .list trees broken => do
    let format? ← match trees with
      | [] => pure none
      | tree :: _ => some <$> Reading.under (.item 0) (readFormat tree)
    let others ← (JsonTree.itemValues trees.tail).mapError .ofJson
    Reading.ending broken ()
    match format? >>= (ofItems? · others) with
    | some output => return output
    | none => throw (.unfit [])
  | .misnamed _ => .error .malformed
  | tree => .error tree.misfit

end Output

def Parameter.read : JsonTree → Reading Parameter :=
  Fields.read ["name", "type", "indexed"] fun fields =>
    Parameter.mk <$> fields.required "name" Reading.string
      <*> fields.required "type" Reading.string
      <*> fields.withDefault "indexed" false Reading.bool

def MemberOutput.read : JsonTree → Reading MemberOutput :=
  Fields.read ["name", "type"] fun fields =>
    MemberOutput.mk <$> fields.required "name" Reading.string
      <*> fields.required "type" Reading.string

def MemberQuery.read : JsonTree → Reading MemberQuery :=
  Fields.read ["member", "inputs", "outputs"] fun fields =>
    MemberQuery.mk <$> fields.required "member" Reading.string
      <*> fields.withDefault "inputs" [] (Reading.list Operand.read)
      <*> fields.required "outputs" (Reading.list MemberOutput.read)

/-- Reads the type of an attribute. Under its name there may stand null. -/
def readAttributeType : JsonTree → Reading XesType :=
  Reading.choice fun name => (XesType.ofName? name).map fun type => fun
    | none | some (.scalar .null) => .ok type
    | some tree => .error tree.misfit

def Attribute.read : JsonTree → Reading Attribute :=
  Fields.read ["key", "type", "value"] fun fields =>
    Attribute.mk <$> fields.required "key" Reading.string
      <*> fields.required "type" readAttributeType
      <*> fields.required "value" Operand.read

namespace Instruction

/-- How an instruction of a name is read, with `body` for the instructions
inside. -/
def ofName? (body : JsonTree → Reading (List Instruction)) (name : String) :
    Option (JsonTree → Reading Instruction) :=
  let operands := Reading.list Operand.read
  match name with
  | "blocks" => some <| Fields.read ["from", "to", "instructions"] fun fields =>
    blocks <$> fields.required "from" Operand.read
      <*> fields.optional "to" Operand.read
      <*> fields.withDefault "instructions" [] body
  | "transactions" => some <| Fields.read ["senders", "recipients", "instructions"] fun fields =>
    transactions <$> fields.optional "senders" Operand.read
      <*> fields.optional "recipients" Operand.read
      <*> fields.withDefault "instructions" [] body
  | "log_entries" => some <| Fields.read ["event", "parameters", "addresses", "instructions"]
      fun fields =>
    logEntries <$> fields.required "event" Reading.string
      <*> fields.withDefault "parameters" [] (Reading.list Parameter.read)
      <*> fields.optional "addresses" Operand.read
      <*> fields.withDefault "instructions" [] body
  | "if" => some <| Fields.read ["condition", "instructions"] fun fields =>
    when <$> fields.required "condition" Operand.read
      <*> fields.withDefault "instructions" [] body
  | "smart_contract" => some <| Fields.read ["contract", "queries", "instructions"] fun fields =>
    contract <$> fields.required "contract" Operand.read
      <*> fields.required "queries" (Reading.list MemberQuery.read)
      <*> fields.withDefault "instructions" [] body
  | "assign" => some <| Fields.read ["name", "value"] fun fields =>
    assign <$> fields.required "name" Reading.string <*> fields.required "value" Operand.read
  | "call" => some <| Fields.read ["method", "parameters", "result"] fun fields =>
    call <$> fields.required "method" Reading.string
      <*> fields.withDefault "parameters" [] operands
      <*> fields.optional "result" Reading.string
  | "csv_row" => some <| Fields.read ["table", "columns"] fun fields =>
    (fun table columns => exportRow table (Keyed.ofList columns))
      <$> fields.required "table" Reading.string
      <*> fields.required "columns" (Reading.record Operand.read)
  | "log_line" => some <| Fields.read ["parts"] fun fields =>
    exportLine <$> fields.required "parts" operands
  | "xes_event" => some <| Fields.read ["trace", "event", "attributes"] fun fields =>
    exportEvent <$> fields.required "trace" Operand.read
      <*> fields.required "event" Operand.read
      <*> fields.withDefault "attributes" [] (Reading.list Attribute.read)
  | _ => none

/-- Reads an instruction, with instructions nested `depth` levels deep at most. -/
def read : (depth : Nat) → JsonTree → Reading Instruction
  | 0, _ => .error .malformed
  | depth + 1, tree =>
    let body := Reading.list (read depth)
    let pick (name : String) : Option (Option JsonTree → Reading Instruction) :=
      (ofName? body name).map fun inside => fun
        | some content => inside content
        | none => .error (.unfit [])
    Reading.choice pick tree

end Instruction

end ChainExtract.Plan

namespace ChainExtract.Plan

def read : JsonTree → Reading Plan :=
  Fields.read ["outputs", "instructions"] fun fields =>
    Plan.mk <$> fields.withDefault "outputs" [] (Reading.list Output.read)
      <*> fields.required "instructions" (Reading.list (Instruction.read JsonTree.nestingLimit))

/-- The plan with which a text begins. -/
def ofText (text : String) : Reading Plan := read (JsonTree.ofText text)

/-- The plan in a document that may be missing. -/
def ofDocument : Option String → Reading Plan
  | none => .error .unopened
  | some text => ofText text

end ChainExtract.Plan
