import ChainExtract.Json.Number

/-!
# JSON texts

A text is read into a tree as far as it is JSON; where it goes wrong the tree
holds the fault in its place. Whoever reads the tree from left to right so
meets the faults of the text and its own objections in the order of the text.
Lists and objects nest 127 levels deep. What follows the value is left alone.
-/

namespace ChainExtract

/-- What stands behind the last entry of a list or an object. -/
inductive JsonEnding where
  | closed
  /-- Neither a comma nor the closing bracket. -/
  | broken (fault : JsonFault)
  /-- A further entry is due but its beginning is faulty. -/
  | dangling (fault : JsonFault)
deriving DecidableEq, Repr

/-- The fault of an ending, if it has one. -/
def JsonEnding.fault? : JsonEnding → Option JsonFault
  | closed => none
  | broken fault | dangling fault => some fault

/-- A JSON value up to the first fault of its text. -/
inductive JsonTree where
  | scalar (value : JsonScalar)
  | list (items : List JsonTree) (ending : JsonEnding)
  | record (members : List (String × JsonTree)) (ending : JsonEnding)
  /-- An object whose first member does not begin with a string but with `key`. -/
  | misnamed (key : JsonTree)
  /-- A faulty value without parts; `bare` if it begins like a number or a
  name rather than a string. -/
  | broken (fault : JsonFault) (bare : Bool)
deriving Repr

namespace JsonTree

/-- How deep lists and objects may be nested. -/
def nestingLimit : Nat := 127

def isBlank (c : Char) : Bool := c = ' ' || c = '\n' || c = '\t' || c = '\r'

/-- The text without the blanks at its beginning. -/
def skipBlanks (cs : List Char) : List Char := cs.dropWhile isBlank

/-- Reads the rest of a name. -/
def word : (expected cs : List Char) → Except JsonFault (List Char)
  | [], cs => .ok cs
  | _, [] => .error .unfinished
  | e :: expected, c :: cs => if c = e then word expected cs else .error .malformed

/-- Reads four hexadecimal digits. A text of fewer than four bytes is
unfinished, whatever it holds. -/
def codeUnit (cs : List Char) : Except JsonFault (Nat × List Char) :=
  let digits := cs.take 4
  if digits.foldl (fun size c => size + c.utf8Size) 0 < 4 then .error .unfinished
  else match Numeral.ofDigits? 16 digits with
    | some n => .ok (n, cs.drop 4)
    | none => .error .malformed

/-- Reads the rest of an escape that gives a character by its number. One
beyond sixteen bits is given by two halves. -/
def numberedChar (cs : List Char) : Except JsonFault (Char × List Char) := do
  let (high, rest) ← codeUnit cs
  if 0xDC00 ≤ high ∧ high ≤ 0xDFFF then throw .malformed
  else if high < 0xD800 ∨ 0xDBFF < high then return (Char.ofNat high, rest)
  else
    let rest ← word ['\\', 'u'] rest
    let (low, rest) ← codeUnit rest
    if low < 0xDC00 ∨ 0xDFFF < low then throw .malformed
    else return (Char.ofNat (0x10000 + (high - 0xD800) * 0x400 + (low - 0xDC00)), rest)

/-- Reads the rest of an escape. -/
def escapedChar : List Char → Except JsonFault (Char × List Char)
  | [] => .error .unfinished
  | c :: cs =>
    match c with
    | '"' | '\\' | '/' => .ok (c, cs)
    | 'b' => .ok (Char.ofNat 8, cs)
    | 'f' => .ok (Char.ofNat 12, cs)
    | 'n' => .ok ('\n', cs)
    | 'r' => .ok ('\r', cs)
    | 't' => .ok ('\t', cs)
    | 'u' => numberedChar cs
    | _ => .error .malformed

/-- Reads the characters of a string up to its closing quote; `fuel` is at
least the length of the text. -/
def stringChars : (fuel : Nat) → List Char → Except JsonFault (List Char × List Char)
  | 0, _ => .error .unfinished
  | _, [] => .error .unfinished
  | fuel + 1, c :: cs => do
    if c = '"' then return ([], cs)
    else if c.toNat < 32 then throw .malformed
    else
      let (c, cs) ← if c = '\\' then escapedChar cs else pure (c, cs)
      let (chars, rest) ← stringChars fuel cs
      return (c :: chars, rest)

/-- Reads a string behind its opening quote. -/
def string (cs : List Char) : Except JsonFault (String × List Char) := do
  let (chars, rest) ← stringChars cs.length cs
  return (String.ofList chars, rest)

/-- Reads a value without parts. -/
def readScalar (cs : List Char) : JsonTree × List Char :=
  let leaf (bare : Bool) : Except JsonFault (JsonScalar × List Char) → JsonTree × List Char
    | .ok (value, rest) => (scalar value, rest)
    | .error fault => (broken fault bare, [])
  let named (value : JsonScalar) (name cs : List Char) :=
    leaf true ((word name cs).map fun rest => (value, rest))
  match cs with
  | [] => (broken .unfinished false, [])
  | c :: rest =>
    match c with
    | '"' => leaf false ((string rest).map fun (s, rest) => (.string s, rest))
    | 'n' => named .null "ull".toList rest
    | 't' => named (.bool true) "rue".toList rest
    | 'f' => named (.bool false) "alse".toList rest
    | '-' => leaf true (JsonNumber.unsigned true rest)
    | c => if c.isDigit then leaf true (JsonNumber.unsigned false cs) else (broken .malformed true, [])

section Entries

variable (value : List Char → JsonTree × List Char)

/-- Reads the items of a list from the beginning of one on; `fuel` is at least
the length of the text. -/
def items : (fuel : Nat) → List Char → List JsonTree × JsonEnding × List Char
  | 0, _ => ([], .broken .unfinished, [])
  | fuel + 1, cs =>
    let (item, rest) := value cs
    match skipBlanks rest with
    | [] => ([item], .broken .unfinished, [])
    | c :: rest =>
      if c = ']' then ([item], .closed, rest)
      else if c ≠ ',' then ([item], .broken .malformed, [])
      else match skipBlanks rest with
        | [] => ([item], .dangling .unfinished, [])
        | ']' :: _ => ([item], .dangling .malformed, [])
        | rest =>
          let (further, ending, rest) := items fuel rest
          (item :: further, ending, rest)

/-- Reads the value of a member behind its name. -/
def memberValue (cs : List Char) : JsonTree × List Char :=
  match skipBlanks cs with
  | ':' :: rest => value (skipBlanks rest)
  | [] => (broken .unfinished false, [])
  | _ => (broken .malformed false, [])

/-- Reads the members of an object from behind the opening quote of a name
on; `fuel` is at least the length of the text. -/
def members : (fuel : Nat) → List Char → List (String × JsonTree) × JsonEnding × List Char
  | 0, _ => ([], .dangling .unfinished, [])
  | fuel + 1, cs =>
    match string cs with
    | .error fault => ([], .dangling fault, [])
    | .ok (name, rest) =>
      let (tree, rest) := memberValue value rest
      match skipBlanks rest with
      | [] => ([(name, tree)], .broken .unfinished, [])
      | c :: rest =>
        if c = '\x7d' then ([(name, tree)], .closed, rest)
        else if c ≠ ',' then ([(name, tree)], .broken .malformed, [])
        else match skipBlanks rest with
          | [] => ([(name, tree)], .dangling .unfinished, [])
          | '"' :: rest =>
            let (further, ending, rest) := members fuel rest
            ((name, tree) :: further, ending, rest)
          | _ => ([(name, tree)], .dangling .malformed, [])

/-- Reads a list behind its opening bracket. -/
def readList (cs : List Char) : JsonTree × List Char :=
  match skipBlanks cs with
  | [] => (list [] (.broken .unfinished), [])
  | ']' :: rest => (list [] .closed, rest)
  | rest =>
    let (items, ending, rest) := items value rest.length rest
    (list items ending, rest)

/-- Reads an object behind its opening bracket. -/
def readRecord (cs : List Char) : JsonTree × List Char :=
  match skipBlanks cs with
  | [] => (record [] (.broken .unfinished), [])
  | '\x7d' :: rest => (record [] .closed, rest)
  | '"' :: rest =>
    let (members, ending, rest) := members value rest.length rest
    (record members ending, rest)
  -- what stands for the name is read as a value, since its own fault comes first
  | rest => (misnamed (value rest).1, [])

end Entries

/-- Reads the value at the beginning of a text, with lists and objects nested
`depth` levels deep at most. -/
def read : (depth : Nat) → List Char → JsonTree × List Char
  | 0, cs =>
    match cs with
    | '[' :: _ => (list [] (.broken .malformed), [])
    | '\x7b' :: _ => (record [] (.broken .malformed), [])
    | cs => readScalar cs
  | depth + 1, cs =>
    match cs with
    | '[' :: rest => readList (read depth) rest
    | '\x7b' :: rest => readRecord (read depth) rest
    | cs => readScalar cs

/-- The value with which a text begins. -/
def ofText (text : String) : JsonTree := (read nestingLimit (skipBlanks text.toList)).1

mutual

/-- The value that a tree holds, or its first fault. -/
def value : JsonTree → Except JsonFault JsonValue
  | scalar value => .ok (.scalar value)
  | list items ending => do
    let items ← itemValues items
    match ending.fault? with
    | none => return .list items
    | some fault => throw fault
  | record members ending => do
    let members ← memberValues members
    match ending.fault? with
    | none => return .record members
    | some fault => throw fault
  | misnamed _ => .error .malformed
  | broken fault _ => .error fault

def itemValues : List JsonTree → Except JsonFault (List JsonValue)
  | [] => .ok []
  | item :: items => do return (← value item) :: (← itemValues items)

def memberValues : List (String × JsonTree) → Except JsonFault (List (String × JsonValue))
  | [] => .ok []
  | (name, tree) :: members => do return (name, ← value tree) :: (← memberValues members)

end

end JsonTree

end ChainExtract
