import ChainExtract.Address
import ChainExtract.Value.Type

/-!
# Values

The values that programs compute with, their types and their text.
-/

namespace ChainExtract

/-- A value. Integers are unbounded, since amounts on a chain exceed any
machine word. -/
inductive Value where
  | bool (value : Bool)
  | int (value : Int)
  | str (value : String)
  | bytes (value : Bytes)
  | addr (value : Address)
  | list (items : List Value)

namespace Value

mutual

/-- Whether two values are the same. -/
def decEq : (a b : Value) → Decidable (a = b)
  | bool a, bool b => decidable_of_iff (a = b) (by simp)
  | int a, int b => decidable_of_iff (a = b) (by simp)
  | str a, str b => decidable_of_iff (a = b) (by simp)
  | bytes a, bytes b => decidable_of_iff (a = b) (by simp)
  | addr a, addr b => decidable_of_iff (a = b) (by simp)
  | list a, list b =>
    match decEqList a b with
    | isTrue h => isTrue (by rw [h])
    | isFalse h => isFalse (by simpa using h)
  | bool _, int _ | bool _, str _ | bool _, bytes _ | bool _, addr _ | bool _, list _
  | int _, bool _ | int _, str _ | int _, bytes _ | int _, addr _ | int _, list _
  | str _, bool _ | str _, int _ | str _, bytes _ | str _, addr _ | str _, list _
  | bytes _, bool _ | bytes _, int _ | bytes _, str _ | bytes _, addr _ | bytes _, list _
  | addr _, bool _ | addr _, int _ | addr _, str _ | addr _, bytes _ | addr _, list _
  | list _, bool _ | list _, int _ | list _, str _ | list _, bytes _ | list _, addr _ =>
    isFalse (by simp)

/-- Whether two lists of values are the same. -/
def decEqList : (a b : List Value) → Decidable (a = b)
  | [], [] => isTrue rfl
  | [], _ :: _ | _ :: _, [] => isFalse (by simp)
  | a :: as, b :: bs =>
    match decEq a b, decEqList as bs with
    | isTrue h, isTrue hs => isTrue (by rw [h, hs])
    | isFalse h, _ => isFalse (by simp [h])
    | _, isFalse hs => isFalse (by simp [hs])

end

instance : DecidableEq Value := decEq

instance : Inhabited Value := ⟨.list []⟩

mutual

/-- The type of a value. A list has the type that its elements have in common. -/
def type : Value → ValueType
  | bool _ => .bool
  | int _ => .int
  | str _ => .string
  | bytes _ => .bytes
  | addr _ => .address
  | list items => .list (.common (types items))

/-- The types of the values, in order. -/
def types : List Value → List ValueType
  | [] => []
  | item :: items => item.type :: types items

end

@[simp] theorem types_eq_map (items : List Value) : types items = items.map type := by
  induction items with
  | nil => rfl
  | cons item items ih => simp [types, ih]

mutual

/-- The text of a value: integers in decimal, byte strings in hexadecimal,
addresses with their checksum, and lists in brackets. -/
def text : Value → String
  | bool value => if value then "true" else "false"
  | int value => Numeral.decimal value
  | str value => value
  | bytes value => value.text
  | addr value => value.checksumText
  | list items => "[" ++ ", ".intercalate (texts items) ++ "]"

/-- The texts of the values, in order. -/
def texts : List Value → List String
  | [] => []
  | item :: items => item.text :: texts items

end

@[simp] theorem texts_eq_map (items : List Value) : texts items = items.map text := by
  induction items with
  | nil => rfl
  | cons item items ih => simp [texts, ih]

end Value

end ChainExtract
