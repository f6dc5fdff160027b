import ChainExtract.Json.Tree

/-!
# Faults of plan documents

Why a document is not a plan. A document that is JSON but does not describe a
plan is blamed at the path of the part that does not fit.
-/

namespace ChainExtract

/-- A step from a part of a document to one of its entries. -/
inductive PlanStep where
  | item (index : Nat)
  | member (name : String)
deriving DecidableEq, Repr

inductive PlanFault where
  | unopened
  | unfinished
  /-- The text is not JSON, or not in a form that the part allows. -/
  | malformed
  /-- The part at the end of the path is not what the plan has there. -/
  | unfit (path : List PlanStep)
deriving DecidableEq, Repr

namespace PlanFault

def ofJson : JsonFault → PlanFault
  | .unfinished => unfinished
  | .malformed => malformed

/-- The fault as it is seen from the part that holds the entry. -/
def under (step : PlanStep) : PlanFault → PlanFault
  | unfit path => unfit (step :: path)
  | fault => fault

/-- The text of the steps of a path. Names after the first step follow a point. -/
def stepsText (separator : String) : List PlanStep → String
  | [] => ""
  | .item index :: path => s!"[{index}]" ++ stepsText "." path
  | .member name :: path => separator ++ name ++ stepsText "." path

/-- The text of a path, which is a point for the whole document. -/
def pathText (path : List PlanStep) : String :=
  if path.isEmpty then "." else stepsText "" path

end PlanFault

/-- The fault of a value of the wrong kind: that of its text, if the value has
no parts and its text is faulty. -/
def JsonTree.misfit : JsonTree → PlanFault
  | .broken fault _ => .ofJson fault
  | _ => .unfit []

/-- What a part of a document says, or why it says nothing. -/
abbrev Reading (α : Type) := Except PlanFault α

namespace Reading

variable {α : Type}

/-- A reading as it is seen from the part that holds the entry. -/
def under (step : PlanStep) (reading : Reading α) : Reading α := reading.mapError (·.under step)

/-- A result, unless the text goes wrong behind it. -/
def ending (ending : JsonEnding) (result : α) : Reading α :=
  match ending.fault? with
  | none => .ok result
  | some fault => .error (.ofJson fault)

def string : JsonTree → Reading String
  | .scalar (.string s) => .ok s
  | tree => .error tree.misfit

def bool : JsonTree → Reading Bool
  | .scalar (.bool b) => .ok b
  | tree => .error tree.misfit

/-- Reads something that may be null instead. -/
def nullable (read : JsonTree → Reading α) : JsonTree → Reading (Option α)
  | .scalar .null => .ok none
  | tree => some <$> read tree

/-- Reads items from the index on. -/
def items (read : JsonTree → Reading α) : (index : Nat) → List JsonTree → Reading (List α)
  | _, [] => .ok []
  | index, tree :: trees => do
    let a ← under (.item index) (read tree)
    return a :: (← items read (index + 1) trees)

def list (read : JsonTree → Reading α) : JsonTree → Reading (List α)
  | .list trees broken => do ending broken (← items read 0 trees)
  | tree => .error tree.misfit

def members (read : JsonTree → Reading α) : List (String × JsonTree) → Reading (List (String × α))
  | [] => .ok []
  | (name, tree) :: trees => do
    let a ← under (.member name) (read tree)
    return (name, a) :: (← members read trees)

/-- Reads an object whose member names are free. -/
def record (read : JsonTree → Reading α) : JsonTree → Reading (List (String × α))
  | .record trees broken => do ending broken (← members read trees)
  | .misnamed _ => .error .malformed
  | tree => .error tree.misfit

/-- Reads one of several kinds of things. It is written as an object whose only
member is named after the kind, or as the name alone; `pick` tells how what
stands under a name is read, if the name is that of a kind. -/
def choice (pick : String → Option (Option JsonTree → Reading α)) : JsonTree → Reading α
  | .record [] broken =>
    match broken.fault? with
    | none => .error .malformed
    | some fault => .error (.ofJson fault)
  | .record ((name, content) :: further) broken =>
    match pick name with
    | none => .error (.unfit [])
    | some read => do
      let a ← under (.member name) (read (some content))
      match further, broken with
      | [], .closed => return a
      | [], .broken fault => .error (.ofJson fault)
      | _, _ => .error .malformed
  | .misnamed key => .error key.misfit
  | .scalar (.string name) =>
    match pick name with
    | none => .error (.unfit [])
    | some read => under (.member name) (read none)
  | .broken fault false => .error (.ofJson fault)
  | _ => .error .malformed

end Reading

end ChainExtract
