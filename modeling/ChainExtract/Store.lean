import ChainExtract.Error
import ChainExtract.Keyed
import ChainExtract.Value

/-!
# The store

The variables of a running program. The store is flat: who builds a program
gives different variables different names.
-/

namespace ChainExtract

structure Store where
  entries : Keyed String Value := []
deriving DecidableEq

namespace Store

def empty : Store := {}

def get? (store : Store) (name : String) : Option Value := Keyed.get? store.entries name

/-- The value of a variable that must be set. -/
def get (store : Store) (name : String) : Except Error Value :=
  match store.get? name with
  | some value => .ok value
  | none => .error (.undefinedVariable name)

def set (store : Store) (name : String) (value : Value) : Store :=
  ⟨Keyed.set store.entries name value⟩

def erase (store : Store) (name : String) : Store :=
  ⟨store.entries.filter (·.1 != name)⟩

def eraseAll (store : Store) (names : List String) : Store := names.foldl erase store

def contains (store : Store) (name : String) : Bool := (store.get? name).isSome

def size (store : Store) : Nat := store.entries.length

@[simp] theorem get?_set_self (store : Store) (name : String) (value : Value) :
    (store.set name value).get? name = some value :=
  Keyed.get?_update_self store.entries name _

theorem get?_set_of_ne (store : Store) {name other : String} (h : name ≠ other) (value : Value) :
    (store.set name value).get? other = store.get? other :=
  Keyed.get?_update_of_ne store.entries h _

@[simp] theorem get?_erase_self (store : Store) (name : String) :
    (store.erase name).get? name = none := by
  simp [get?, erase, Keyed.get?]

theorem get?_erase_of_ne (store : Store) {name other : String} (h : name ≠ other) :
    (store.erase name).get? other = store.get? other := by
  simp only [get?, erase, Keyed.get?]
  congr 1
  induction store.entries with
  | nil => rfl
  | cons entry rest ih =>
    by_cases ho : entry.1 = other
    · simp [ho, Ne.symm h]
    · by_cases hn : entry.1 = name
      · simpa [List.filter_cons, hn, h] using ih
      · simpa [List.filter_cons, hn, ho] using ih

end Store

end ChainExtract
