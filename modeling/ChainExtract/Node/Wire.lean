import ChainExtract.Bytes.Hex
import ChainExtract.Json.Value
import ChainExtract.Node.Reply

/-!
# Replies as JSON

The form in which a node writes its replies: objects whose numbers and byte
strings are hexadecimal text behind `0x`. Numbers and byte strings that are
left out are zero or empty.
-/

namespace ChainExtract

namespace JsonValue

/-- The value of a member, unless it is left out or null. -/
def field? (value : JsonValue) (name : String) : Option JsonValue :=
  match value with
  | record members =>
    match members.lookup name with
    -- null counts as left out
    | some (scalar .null) => none
    | field? => field?
  | _ => none

/-- The hexadecimal digits of a text behind `0x`. -/
def hexDigits? : JsonValue → Option (List Char)
  | scalar (.string s) =>
    match s.toList with
    | '0' :: 'x' :: digits => some digits
    | _ => none
  | _ => none

def quantity? (value : JsonValue) : Option Nat := value.hexDigits? >>= Numeral.ofDigits? 16

def data? (value : JsonValue) : Option Bytes := value.hexDigits? >>= Bytes.ofHex?

def fixed? (n : Nat) (value : JsonValue) : Option (FixedBytes n) := do
  let bytes ← value.data?
  if h : bytes.length = n then some ⟨bytes, h⟩ else none

def bool? : JsonValue → Option Bool
  | scalar (.bool b) => some b
  | _ => none

def items? : JsonValue → Option (List JsonValue)
  | list items => some items
  | _ => none

variable {α : Type}

/-- Reads a member; `absent` is taken where it is left out. -/
def fieldOr (value : JsonValue) (name : String) (absent : α) (read : JsonValue → Option α) :
    Option α :=
  match value.field? name with
  | some field => read field
  | none => some absent

/-- Reads a member that may be left out. -/
def optionalField (value : JsonValue) (name : String) (read : JsonValue → Option α) :
    Option (Option α) :=
  value.fieldOr name none fun field => some <$> read field

end JsonValue

open JsonValue (quantity? data? fixed? bool? items?)

def NodeLog.ofJson? (json : JsonValue) : Option NodeLog := do
  return {
    address := ← json.fieldOr "address" (.zero 20) (fixed? 20)
    index := ← json.optionalField "logIndex" quantity?
    topics := ← (← json.fieldOr "topics" [] items?).mapM (fixed? 32)
    data := ← json.fieldOr "data" [] data?
    removed := ← json.fieldOr "removed" false bool? }

/-- Reads a receipt. A transaction has failed if its status is zero. -/
def NodeReceipt.ofJson? (json : JsonValue) : Option NodeReceipt := do
  return {
    transactionHash := ← json.fieldOr "transactionHash" (.zero 32) (fixed? 32)
    success := (← json.fieldOr "status" 1 quantity?) != 0
    gasUsed := ← json.fieldOr "gasUsed" 0 quantity?
    logs := ← (← json.fieldOr "logs" [] items?).mapM NodeLog.ofJson? }

def NodeTransaction.ofJson? (json : JsonValue) : Option NodeTransaction := do
  return {
    hash := ← json.fieldOr "hash" (.zero 32) (fixed? 32)
    index := ← json.optionalField "transactionIndex" quantity?
    sender := ← json.fieldOr "from" (.zero 20) (fixed? 20)
    recipient := ← json.optionalField "to" (fixed? 20)
    value := ← json.fieldOr "value" 0 quantity?
    gas := ← json.fieldOr "gas" 0 quantity?
    gasPrice := ← json.optionalField "gasPrice" quantity?
    nonce := ← json.fieldOr "nonce" 0 quantity?
    input := ← json.fieldOr "input" [] data? }

/-- Reads the transactions of a block, which are objects or hashes. -/
def NodeTransactions.ofJson? (json : JsonValue) : Option NodeTransactions := do
  match ← json.items? with
  | .scalar first :: rest => return .hashes (← (.scalar first :: rest).mapM (fixed? 32))
  | objects => return .full (← objects.mapM NodeTransaction.ofJson?)

def NodeBlock.ofJson? (json : JsonValue) : Option NodeBlock := do
  return {
    number := ← json.fieldOr "number" 0 quantity?
    hash := ← json.fieldOr "hash" (.zero 32) (fixed? 32)
    parentHash := ← json.fieldOr "parentHash" (.zero 32) (fixed? 32)
    timestamp := ← json.fieldOr "timestamp" 0 quantity?
    miner := ← json.fieldOr "miner" (.zero 20) (fixed? 20)
    gasUsed := ← json.fieldOr "gasUsed" 0 quantity?
    gasLimit := ← json.fieldOr "gasLimit" 0 quantity?
    difficulty := ← json.fieldOr "difficulty" 0 quantity?
    extraData := ← json.fieldOr "extraData" [] data?
    transactions := ← json.fieldOr "transactions" (.full []) NodeTransactions.ofJson? }

end ChainExtract
