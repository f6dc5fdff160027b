import ChainExtract.Keyed
import ChainExtract.Text.Numeral
import ChainExtract.Value.Type

/-!
# Names of a plan

The variables that are visible at a place of a plan, and the names under which
they are stored. A body has a frame of its own for the variables that are
declared in it. Each declaration gets a storage name of its own.
-/

namespace ChainExtract

/-- A declared variable: where it is stored, and the type it was declared with. -/
structure Declared where
  storage : String
  type : ValueType
deriving DecidableEq, Repr

/-- The visible variables, the innermost frame first, and how often each name
has been declared in the whole plan so far. -/
structure Names where
  frames : List (Keyed String Declared) := [[]]
  counts : Keyed String Nat := []
deriving DecidableEq, Repr

namespace Names

def find? (names : Names) (name : String) : Option Declared :=
  names.frames.findSome? (·.get? name)

/-- The storage name of the declaration of a name after `count` others. -/
def storageName (name : String) (count : Nat) : String :=
  if count = 0 then name else s!"{name}#{Numeral.decimal count}"

/-- How often a name has been declared. -/
def count (names : Names) (name : String) : Nat := (names.counts.get? name).getD 0

/-- Declares a variable in the innermost frame: its storage name, and the names
after that. -/
def declare (names : Names) (name : String) (type : ValueType) : String × Names :=
  let storage := storageName name (names.count name)
  let frames := match names.frames with
    | [] => []
    | frame :: outer => frame.set name ⟨storage, type⟩ :: outer
  (storage, { frames, counts := names.counts.set name (names.count name + 1) })

/-- Assigns a value of a type to a name. A visible variable whose type accepts
it is set; otherwise the assignment declares a new one. -/
def assign (names : Names) (name : String) (type : ValueType) : String × Names :=
  match names.find? name with
  | some declared =>
    -- a value of another type shadows the variable and does not overwrite it
    if declared.type.accepts type then (declared.storage, names) else names.declare name type
  | none => names.declare name type

def enter (names : Names) : Names := { names with frames := [] :: names.frames }

/-- Leaves a body: what was declared in it is no longer visible. -/
def leave (names : Names) : Names := { names with frames := names.frames.tail }

@[simp] theorem frames_enter (names : Names) : names.enter.frames = [] :: names.frames := rfl

@[simp] theorem leave_enter (names : Names) : names.enter.leave = names := rfl

end Names

end ChainExtract
