import ChainExtract.Abi.Type

/-!
# Names of contract types

Names are read in two stages: the brackets and commas give an expression over
root names, and each root name is then looked up. Roots `uint` and `int` mean
256 bits, and a dotted root names an enumeration, which is a `uint8`.
-/

namespace ChainExtract

/-- A type name whose roots have not been looked up. -/
inductive TypeName where
  | root (name : String)
  | tuple (components : List TypeName)
  | array (element : TypeName)
  | fixedArray (element : TypeName) (size : Nat)

/-- Why a text names no contract type. -/
inductive TypeNameError where
  | malformed
  | invalidSize (root : String)
  | unknown (root : String)
deriving DecidableEq, Repr

namespace TypeNameError

def message : TypeNameError → String
  | malformed => "parser error"
  | invalidSize root => s!"invalid size for type: {root}"
  | unknown root => s!"invalid type string: {root}"

end TypeNameError

namespace TypeName

/-- Whether a character may begin an identifier. -/
def isIdentifierStart (c : Char) : Bool := c.isAlpha || c == '_' || c == '$'

def isIdentifierRest (c : Char) : Bool := isIdentifierStart c || c.isDigit

/-- The identifier at the front, if there is one, and what follows. -/
def identifier? : List Char → Option (String × List Char)
  | c :: cs =>
    if isIdentifierStart c then
      some (String.ofList (c :: cs.takeWhile isIdentifierRest), cs.dropWhile isIdentifierRest)
    else none
  | [] => none

/-- The root name at the front. Plain integer names are completed, and a
dotted name stands for `uint8`. -/
def root? (cs : List Char) : Option (TypeName × List Char) := do
  let (name, rest) ← identifier? cs
  match rest with
  | '.' :: rest =>
    let rest := match identifier? rest with
      | some (_, rest) => rest
      | none => rest
    return (.root "uint8", rest)
  | _ =>
    let name := if name == "uint" then "uint256" else if name == "int" then "int256" else name
    return (.root name, rest)

/-- The input without the blanks at its front. -/
def skipBlanks (cs : List Char) : List Char := cs.dropWhile fun c => c == ' ' || c == '\t'

/-- The array brackets at the front, applied to an element type, and what
follows them. The fuel bounds the number of brackets. -/
def brackets? : (fuel : Nat) → TypeName → List Char → Option (TypeName × List Char)
  | fuel + 1, element, '[' :: ']' :: rest => brackets? fuel (.array element) rest
  | fuel + 1, element, '[' :: rest => do
    let size ← Numeral.ofDigits? 10 (rest.takeWhile Char.isDigit)
    match rest.dropWhile Char.isDigit with
    | ']' :: rest =>
      if 0 < size ∧ size < Nat.pow 2 64 then brackets? fuel (.fixedArray element size) rest else none
    | _ => none
  | _, element, cs => some (element, cs)

mutual

/-- The type name at the front and what follows. The fuel bounds the number
of names and tuples. -/
def named? : (fuel : Nat) → List Char → Option (TypeName × List Char)
  | 0, _ => none
  | fuel + 1, cs => do
    let (stem, rest) ← match cs with
      | '(' :: rest => tuple? fuel rest
      | 't' :: 'u' :: 'p' :: 'l' :: 'e' :: '(' :: rest => tuple? fuel rest
      | cs => root? cs
    brackets? rest.length stem rest

/-- The components and the closing parenthesis of a tuple. -/
def tuple? : (fuel : Nat) → List Char → Option (TypeName × List Char)
  | 0, _ => none
  | fuel + 1, cs => do
    match skipBlanks cs with
    | ')' :: rest => return (.tuple [], rest)
    | cs =>
      let (components, rest) ← components? fuel cs
      return (.tuple components, rest)

/-- One or more components up to the closing parenthesis; a comma may stand
behind the last. -/
def components? : (fuel : Nat) → List Char → Option (List TypeName × List Char)
  | 0, _ => none
  | fuel + 1, cs => do
    let (first, rest) ← named? fuel cs
    match rest with
    | ',' :: rest =>
      match skipBlanks rest with
      | ')' :: rest => return ([first], rest)
      | rest =>
        let (others, rest) ← components? fuel rest
        return (first :: others, rest)
    | rest =>
      match skipBlanks rest with
      | ')' :: rest => return ([first], rest)
      | _ => none

end

/-- The type name that a whole text spells. -/
def ofText? (text : String) : Option TypeName :=
  -- each name takes at most three calls and at least one character
  match named? (3 * text.length + 3) text.toList with
  | some (name, []) => some name
  | _ => none

/-- The number spelt by digits behind a known stem of a root name. -/
def sizeAfter? (stem root : String) : Option (Option Nat) :=
  if root.startsWith stem then some (Numeral.ofDigits? 10 (root.toList.drop stem.length)) else none

/-- The contract type of a root name. -/
def rootType (root : String) : Except TypeNameError SolType :=
  match root with
  | "address" => .ok .address
  | "function" => .ok .function
  | "bool" => .ok .bool
  | "string" => .ok .string
  | "bytes" => .ok .bytes
  | _ =>
    match sizeAfter? "bytes" root, sizeAfter? "uint" root, sizeAfter? "int" root with
    | some size?, _, _ =>
      match size? with
      | some size => if 0 < size ∧ size ≤ 32 then .ok (.fixedBytes size) else .error (.invalidSize root)
      | none => .error (.invalidSize root)
    | none, some (some bits), _ =>
      if 0 < bits ∧ bits ≤ 256 ∧ bits % 8 = 0 then .ok (.uint bits) else .error (.invalidSize root)
    | none, none, some (some bits) =>
      if 0 < bits ∧ bits ≤ 256 ∧ bits % 8 = 0 then .ok (.int bits) else .error (.invalidSize root)
    | none, none, none => .error (.unknown root)
    | none, _, _ => .error (.invalidSize root)

mutual

/-- The contract type that a type name stands for. -/
def resolve : TypeName → Except TypeNameError SolType
  | root name => rootType name
  | tuple components => return .tuple (← resolveAll components)
  | array element => return .array (← element.resolve)
  | fixedArray element size => return .fixedArray (← element.resolve) size

def resolveAll : List TypeName → Except TypeNameError (List SolType)
  | [] => return []
  | name :: names => return (← name.resolve) :: (← resolveAll names)

end

end TypeName

/-- The contract type that a text names. -/
def SolType.ofName (text : String) : Except TypeNameError SolType :=
  match TypeName.ofText? text with
  | some name => name.resolve
  | none => .error .malformed

end ChainExtract
