import ChainExtract.Number.Shortest

/-!
# JSON values

The values of JSON documents and their compact text. Objects keep their
members as the document lists them; their text has the members in the order
of the names, and of several members of one name the last.
-/

namespace ChainExtract

/-- A value without parts. Whole numbers of at most 64 bits stay whole. -/
inductive JsonScalar where
  | null
  | bool (b : Bool)
  | integer (n : Int)
  | float (x : Binary64)
  | string (s : String)
deriving DecidableEq, Repr

inductive JsonValue where
  | scalar (value : JsonScalar)
  | list (items : List JsonValue)
  | record (members : List (String × JsonValue))
deriving Repr

/-- A number with a point or an exponent in it: positional from `10 ^ -5` up to
`10 ^ 16`, and scientific outside of that range. -/
def Shortest.Decimal.jsonText (decimal : Decimal) : List Char :=
  let digits := Numeral.digits 10 decimal.digits
  let magnitude : Int := decimal.exponent + digits.length - 1
  if -5 ≤ magnitude ∧ magnitude < 16 then
    decimal.positional ++ if 0 ≤ decimal.exponent then ['.', '0'] else []
  else
    let fraction := match digits.drop 1 with
      | [] => []
      | rest => '.' :: rest
    digits.take 1 ++ fraction ++ 'e' :: (if 0 ≤ magnitude then '+' else '-')
      :: Numeral.digits 10 magnitude.natAbs

/-- The shortest text of a number that reads back and shows that it is no
whole number. Numbers that are not finite have none. -/
def Binary64.jsonText : Binary64 → List Char
  | nan | infinite _ => "null".toList
  | finite negative mantissa exponent =>
    let body := if mantissa = 0 then ['0', '.', '0']
      else (Shortest.decimal .even mantissa exponent).jsonText
    if negative then '-' :: body else body

namespace JsonValue

/-- A character of a string: quotes, backslashes and control characters are
escaped. -/
def escapeChar (c : Char) : List Char :=
  match c with
  | '"' => ['\\', '"']
  | '\\' => ['\\', '\\']
  | '\n' => ['\\', 'n']
  | '\r' => ['\\', 'r']
  | '\t' => ['\\', 't']
  | c =>
    if c.toNat = 8 then ['\\', 'b']
    else if c.toNat = 12 then ['\\', 'f']
    else if c.toNat < 32 then
      ['\\', 'u', '0', '0', Numeral.digitChar (c.toNat / 16), Numeral.digitChar (c.toNat % 16)]
    else [c]

def quoted (s : String) : List Char := '"' :: s.toList.flatMap escapeChar ++ ['"']

end JsonValue

def JsonScalar.text : JsonScalar → List Char
  | null => "null".toList
  | bool b => (if b then "true" else "false").toList
  | integer n => (Numeral.decimal n).toList
  | float x => x.jsonText
  | string s => JsonValue.quoted s

namespace JsonValue

/-- Puts a member in its place among members in the order of their names. -/
def insertMember {α : Type} (name : String) (a : α) : List (String × α) → List (String × α)
  | [] => [(name, a)]
  | (other, b) :: rest =>
    if name = other then (name, a) :: rest
    else if name < other then (name, a) :: (other, b) :: rest
    else (other, b) :: insertMember name a rest

/-- The members in the order of their names, the last of each name. -/
def sortMembers {α : Type} (members : List (String × α)) : List (String × α) :=
  members.foldl (fun sorted member => insertMember member.1 member.2 sorted) []

def commaSeparated (texts : List (List Char)) : List Char := List.intercalate [','] texts

mutual

/-- The characters of the compact text of a value. -/
def chars : JsonValue → List Char
  | scalar value => value.text
  | list items => '[' :: commaSeparated (itemChars items) ++ [']']
  | record members =>
    let texts := (sortMembers (memberChars members)).map fun (name, text) => quoted name ++ ':' :: text
    '\x7b' :: commaSeparated texts ++ ['\x7d']

def itemChars : List JsonValue → List (List Char)
  | [] => []
  | item :: items => chars item :: itemChars items

/-- The names of the members with the characters of their values. -/
def memberChars : List (String × JsonValue) → List (String × List Char)
  | [] => []
  | (name, value) :: members => (name, chars value) :: memberChars members

end

def text (value : JsonValue) : String := String.ofList value.chars

end JsonValue

end ChainExtract
