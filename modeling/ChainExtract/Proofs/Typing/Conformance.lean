import ChainExtract.Plan.Compile
import Mathlib.Data.List.Forall2

/-! # Values that conform to types

What it means that a value is of a type, and the values for which this is known without a
run: literals, lists, the properties of chain items, and what methods return.
-/

namespace ChainExtract

namespace Value

/-- The value is of the type: every value is of type `any`, and a list is of a list type if its
elements are of the element type. -/
def Conforms : Value → ValueType → Prop
  | _, .any | .bool _, .bool | .int _, .int | .str _, .string | .bytes _, .bytes
  | .addr _, .address => True
  | .list items, .list element => ∀ item ∈ items, Conforms item element
  | _, _ => False

theorem conforms_any (value : Value) : value.Conforms .any := by
  cases value <;> trivial

section

attribute [local simp] Conforms

theorem conforms_bool {value : Value} : value.Conforms .bool ↔ ∃ b, value = .bool b := by
  cases value <;> simp

theorem conforms_int {value : Value} : value.Conforms .int ↔ ∃ number, value = .int number := by
  cases value <;> simp

theorem conforms_string {value : Value} : value.Conforms .string ↔ ∃ text, value = .str text := by
  cases value <;> simp

theorem conforms_bytes {value : Value} : value.Conforms .bytes ↔ ∃ bytes, value = .bytes bytes := by
  cases value <;> simp

theorem conforms_address {value : Value} :
    value.Conforms .address ↔ ∃ address, value = .addr address := by
  cases value <;> simp

theorem exists_items_of_conforms {value : Value} {element : ValueType}
    (hvalue : value.Conforms (.list element)) :
    ∃ items, value = list items ∧ ∀ item ∈ items, item.Conforms element := by
  cases value <;> simp_all

end

theorem conforms_list {items : List Value} {element : ValueType} :
    (list items).Conforms (.list element) ↔ ∀ item ∈ items, item.Conforms element :=
  Iff.rfl

/-- A type that accepts another has all its values. -/
theorem Conforms.of_accepts {expected actual : ValueType} (haccepts : expected.accepts actual)
    {value : Value} (hvalue : value.Conforms actual) : value.Conforms expected := by
  induction expected, actual using ValueType.accepts.induct generalizing value with
  | case1 => exact value.conforms_any
  | case2 expected actual ih =>
      cases value with
      | list items => exact fun item hitem => ih haccepts (hvalue item hitem)
      | _ => exact hvalue.elim
  | case3 | case4 | case5 | case6 | case7 => exact hvalue
  | case8 => simp_all [ValueType.accepts]

theorem conforms_common {items : List Value} (hitems : ∀ item ∈ items, item.Conforms item.type) :
    ∀ item ∈ items, item.Conforms (.common (items.map type)) := by
  intro item hitem
  cases items with
  | nil => cases hitem
  | cons first rest =>
      rw [List.map_cons, ValueType.common]
      split
      next hall =>
        rcases List.mem_cons.mp hitem with rfl | hrest
        · exact hitems item hitem
        · have hsame : item.type = first.type := by
            simpa using List.all_eq_true.mp hall _ (List.mem_map_of_mem hrest)
          exact hsame ▸ hitems item hitem
      next => exact item.conforms_any

mutual

/-- Every value is of its own type. -/
theorem conforms_type : ∀ value : Value, value.Conforms value.type
  | bool _ | int _ | str _ | bytes _ | addr _ => trivial
  | list items => by
      rw [type, types_eq_map, conforms_list]
      exact conforms_common (conforms_types items)

theorem conforms_types : ∀ items : List Value, ∀ item ∈ items, item.Conforms item.type
  | [], _, hitem => by cases hitem
  | first :: rest, item, hitem => by
      rcases List.mem_cons.mp hitem with hfirst | hrest
      · exact hfirst ▸ conforms_type first
      · exact conforms_types rest item hrest

end

end Value

namespace ValueType

/-- The types of which each value shows that it is one of them. -/
def IsShown : ValueType → Prop
  | list .any => True
  | list _ => False
  | _ => True

theorem IsShown.accepts {expected : ValueType} (hshown : expected.IsShown) {value : Value}
    (hvalue : value.Conforms expected) : expected.accepts value.type = true := by
  cases expected with
  | any => rfl
  | list element =>
      cases value with
      | list items =>
          cases element with
          | any => rfl
          | _ => exact hshown.elim
      | _ => exact hvalue.elim
  | _ => cases value <;> first | rfl | exact hvalue.elim

end ValueType

/-- Values of types that are all the same. -/
theorem Value.forall_conforms {values : List Value} {types : List ValueType}
    (hvalues : List.Forall₂ Value.Conforms values types) {type : ValueType}
    (htypes : ∀ found ∈ types, found = type) : ∀ value ∈ values, value.Conforms type := by
  induction hvalues with
  | nil => simp
  | cons hvalue _ ih =>
      obtain ⟨rfl, hrest⟩ := List.forall_mem_cons.mp htypes
      exact List.forall_mem_cons.mpr ⟨hvalue, ih hrest⟩

/-- A list of values is of the type that their types give a list. -/
theorem Plan.conforms_listType {values : List Value} {types : List ValueType}
    (hvalues : List.Forall₂ Value.Conforms values types) :
    (Value.list values).Conforms (listType types) := by
  cases hvalues with
  | nil => exact fun item hitem => by cases hitem
  | @cons value first values rest hvalue hrest =>
      rw [listType]
      split
      next hall =>
        have hsame : ∀ found ∈ rest, found = first := by simpa using hall
        exact List.forall_mem_cons.mpr ⟨hvalue, Value.forall_conforms hrest hsame⟩
      next => exact fun item _ => item.conforms_any

namespace ChainVariable

/-- The variable reads values of its type. -/
def Typed (var : ChainVariable) : Prop :=
  match var.reading with
  | .block read => ∀ block, (read block).Conforms var.type
  | .transaction read => ∀ transaction, (read transaction).Conforms var.type
  | .logEntry read => ∀ entry, (read entry).Conforms var.type

theorem typed_catalog : ∀ var ∈ catalog, var.Typed := by
  simp [catalog, Typed, Value.Conforms]

theorem conforms_of_read {α : Type} {item? : Option α} {read : α → Value} {type : ValueType}
    {error : Error} {value : Value} (htyped : ∀ item, (read item).Conforms type)
    (hvalue : (match item?.map read with
      | some value => Except.ok value
      | none => Except.error error) = .ok value) : value.Conforms type := by
  cases item? with
  | none => cases hvalue
  | some item =>
      cases hvalue
      exact htyped item

/-- What a variable of the chain reads is of its type. -/
theorem conforms_of_valueAt {name : String} {cursor : Cursor} {value : Value} {var : ChainVariable}
    (hfind : find? name = some var) (hvalue : valueAt name cursor = .ok value) :
    value.Conforms var.type := by
  have htyped : var.Typed := typed_catalog var (List.mem_of_find?_eq_some hfind)
  unfold Typed at htyped
  simp only [valueAt, hfind, resolve] at hvalue
  cases hreading : var.reading with
  | block read | transaction read | logEntry read =>
      rw [hreading] at htyped hvalue
      exact conforms_of_read htyped hvalue

end ChainVariable

/-- The results of a computation are of the type. -/
def Yields (type : ValueType) (outcome : Except Error Value) : Prop :=
  ∀ value, outcome = .ok value → value.Conforms type

theorem Yields.bind {α : Type} {type : ValueType} {x : Except Error α}
    {f : α → Except Error Value} (hf : ∀ result, Yields type (f result)) :
    Yields type (x >>= f) := by
  intro value hvalue
  cases x with
  | error => cases hvalue
  | ok result => exact hf result value hvalue

theorem yields_pure {type : ValueType} {value : Value} (hvalue : value.Conforms type) :
    Yields type (pure value) := by
  rintro _ ⟨⟩
  exact hvalue

/-- A built-in operation returns values of the type that it declares. -/
theorem Builtin.yields_apply (operation : Builtin) (values : List Value) :
    Yields operation.returns (operation.apply values) := by
  unfold apply
  cases operation <;> dsimp only
  case and =>
    refine .bind fun first => ?_
    split
    · exact .bind fun _ => yields_pure trivial
    · exact yields_pure trivial
  case or =>
    refine .bind fun first => ?_
    split
    · exact yields_pure trivial
    · exact .bind fun _ => yields_pure trivial
  all_goals first
    | exact .bind fun _ => yields_pure trivial
    | exact .bind fun _ => .bind fun _ => yields_pure trivial

namespace Method

/-- The method returns values of the type that it declares. -/
def Sound (method : Method) : Prop :=
  match method.behaviour with
  | .builtin operation => method.returns = operation.returns
  | .readContract => method.returns = .list .any
  | .constant value => value.Conforms method.returns

end Method

namespace Library

def Sound (library : Library) : Prop := ∀ method ∈ library.methods, method.Sound

theorem sound_standard : standard.Sound := by
  intro method hmethod
  rcases List.mem_append.mp hmethod with hbuiltin | hread
  · obtain ⟨operation, -, rfl⟩ := List.mem_map.mp hbuiltin
    rfl
  · obtain rfl := List.mem_singleton.mp hread
    rfl

theorem mem_of_resolve {library : Library} {call : Signature} {method : Method}
    (hresolve : library.resolve call = .ok method) : method ∈ library.methods := by
  unfold resolve at hresolve
  split at hresolve
  next exact hexact =>
    cases hresolve
    exact List.mem_of_find?_eq_some hexact
  next =>
    split at hresolve
    · cases hresolve
    next only honly =>
      cases hresolve
      have hmem : method ∈ library.candidates call := by simp [honly]
      exact (List.mem_filter.mp hmem).1
    · cases hresolve

end Library

end ChainExtract
