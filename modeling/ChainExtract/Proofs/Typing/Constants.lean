import ChainExtract.Proofs.Abi.Values
import ChainExtract.Proofs.Scoping.Operands
import Mathlib.Data.List.Forall2

/-! # Types of constants

A constant reads and calls nothing: it is a literal, an address, bytes, an integer, or a list of
constants. It compiles just when it writes out a value, and its static type is the type that the
value has at run time. So it makes no difference whether a list stands in a literal, where its
type is found from values, or is a list of operands, where its type is found from static types.
-/

namespace ChainExtract

/-- The document writes out the value. Null, objects and numbers that are not whole write out
none. -/
inductive JsonValue.Denotes : JsonValue → Value → Prop
  | bool (b : Bool) : Denotes (.scalar (.bool b)) (.bool b)
  | integer (n : Int) : Denotes (.scalar (.integer n)) (.int n)
  | string (s : String) : Denotes (.scalar (.string s)) (.str s)
  | list {items : List JsonValue} {values : List Value}
      (hitems : List.Forall₂ Denotes items values) : Denotes (.list items) (.list values)

theorem Operand.evaluate_literal {σ : Type} (value : Value) :
    ((literal value).evaluate : Run σ Value) = pure value := by
  rw [evaluate]

namespace Plan

namespace Operand

/-- The operand reads no variables and calls no methods, nor do the items of a list. -/
inductive IsConstant : Operand → Prop
  | literal (json : JsonValue) : IsConstant (.literal json)
  | address (value : Address) : IsConstant (.address value)
  | bytes (value : Bytes) : IsConstant (.bytes value)
  | integer (text : String) : IsConstant (.integer text)
  | list {items : List Operand} (hitems : ∀ item ∈ items, IsConstant item) :
      IsConstant (.list items)

/-- The operand writes out the value. -/
inductive Denotes : Operand → Value → Prop
  | literal {json : JsonValue} {value : Value} (hvalue : json.Denotes value) :
      Denotes (.literal json) value
  | address (value : Address) : Denotes (.address value) (.addr value)
  | bytes (value : Bytes) : Denotes (.bytes value) (.bytes value)
  | integer {text : String} {n : Int} (hnumber : integer? text = some n) :
      Denotes (.integer text) (.int n)
  | list {items : List Operand} {values : List Value}
      (hitems : List.Forall₂ Denotes items values) : Denotes (.list items) (.list values)

end Operand

mutual

/-- A literal has the value that its document writes out. -/
theorem literal_eq_ok_iff : ∀ {json : JsonValue} {value : Value},
    literal json = .ok value ↔ json.Denotes value
  | .scalar scalar, value => by
      constructor
      · intro hliteral
        cases scalar with
        | bool b =>
            cases hliteral
            exact .bool b
        | integer n =>
            cases hliteral
            exact .integer n
        | string s =>
            cases hliteral
            exact .string s
        | null | float => cases hliteral
      · intro hvalue
        cases hvalue <;> rfl
  | .list items, value => by
      constructor
      · intro hliteral
        obtain ⟨values, hvalues, hreturn⟩ := exists_of_bind_ok hliteral
        cases hreturn
        exact .list (literals_eq_ok_iff.mp hvalues)
      · intro hvalue
        cases hvalue with
        | list hitems =>
            rw [literal, literals_eq_ok_iff.mpr hitems]
            rfl
  | .record members, value => by
      constructor
      · intro hliteral
        cases hliteral
      · intro hvalue
        cases hvalue

theorem literals_eq_ok_iff : ∀ {items : List JsonValue} {values : List Value},
    literals items = .ok values ↔ List.Forall₂ JsonValue.Denotes items values
  | [], values => by
      constructor
      · intro hliterals
        cases hliterals
        exact .nil
      · intro hvalues
        cases hvalues
        rfl
  | item :: items, values => by
      constructor
      · intro hliterals
        obtain ⟨value, hvalue, hrest⟩ := exists_of_bind_ok hliterals
        obtain ⟨later, hlater, hreturn⟩ := exists_of_bind_ok hrest
        cases hreturn
        exact .cons (literal_eq_ok_iff.mp hvalue) (literals_eq_ok_iff.mp hlater)
      · intro hvalues
        cases hvalues with
        | cons hvalue hlater =>
            rw [literals, literal_eq_ok_iff.mpr hvalue, literals_eq_ok_iff.mpr hlater]
            rfl

end

/-- The static type of a list is found as its type is found at run time. -/
theorem listType_eq (types : List ValueType) : listType types = .list (.common types) := by
  cases types with
  | nil => rfl
  | cons first rest =>
      rw [listType, ValueType.common]
      split <;> rfl

theorem listType_map_type (values : List Value) :
    listType (values.map Value.type) = (Value.list values).type := by
  rw [listType_eq, Value.type, Value.types_eq_map]

section

variable (library : Library) (place : Option Scope)

mutual

/-- An operand that writes out a value compiles, with the type of the value, to code that does
nothing but return the value. -/
theorem Operand.exists_compiled_of_denotes : ∀ {operand : Operand} {value : Value}
    (names : Names), operand.Denotes value →
    ∃ compiled : ChainExtract.Operand,
      (operand.compile library place).run names = .ok ((compiled, value.type), names) ∧
        ∀ σ : Type, (compiled.evaluate : Run σ Value) = pure value
  | .literal json, value, names, .literal hvalue => by
      refine ⟨.literal value, ?_, fun _ => ChainExtract.Operand.evaluate_literal _⟩
      rw [compile, literal_eq_ok_iff.mpr hvalue]
      rfl
  | .address value, _, names, .address _ => by
      refine ⟨.literal (.addr value), ?_, fun _ => ChainExtract.Operand.evaluate_literal _⟩
      rw [compile]
      rfl
  | .bytes value, _, names, .bytes _ => by
      refine ⟨.literal (.bytes value), ?_, fun _ => ChainExtract.Operand.evaluate_literal _⟩
      rw [compile]
      rfl
  | .integer text, .int n, names, .integer hnumber => by
      refine ⟨.literal (.int n), ?_, fun _ => ChainExtract.Operand.evaluate_literal _⟩
      rw [compile, hnumber]
      rfl
  | .list items, .list values, names, .list hitems => by
      obtain ⟨compiled, hcompile, hevaluate⟩ :=
        Operand.exists_compiledAll_of_denotes names hitems
      refine ⟨.list compiled, ?_, fun σ => ?_⟩
      · rw [compile, Compiler.run_bind_of_ok hcompile, ← listType_map_type]
        rfl
      · rw [ChainExtract.Operand.evaluate, hevaluate σ, pure_bind]

theorem Operand.exists_compiledAll_of_denotes : ∀ {operands : List Operand}
    {values : List Value} (names : Names), List.Forall₂ Operand.Denotes operands values →
    ∃ compiled : List ChainExtract.Operand,
      (compileAll library place operands).run names =
          .ok ((compiled, values.map Value.type), names) ∧
        ∀ σ : Type, (ChainExtract.Operand.evaluateAll compiled : Run σ (List Value)) = pure values
  | [], [], names, .nil => by
      refine ⟨[], ?_, fun σ => by rw [ChainExtract.Operand.evaluateAll]⟩
      rw [compileAll]
      rfl
  | operand :: operands, value :: values, names, .cons hfirst hrest => by
      obtain ⟨first, hcompile, hevaluate⟩ := Operand.exists_compiled_of_denotes names hfirst
      obtain ⟨rest, hcompileRest, hevaluateRest⟩ :=
        Operand.exists_compiledAll_of_denotes names hrest
      refine ⟨first :: rest, ?_, fun σ => ?_⟩
      · rw [compileAll, Compiler.run_bind_of_ok hcompile, Compiler.run_bind_of_ok hcompileRest]
        rfl
      · rw [ChainExtract.Operand.evaluateAll, hevaluate σ, pure_bind, hevaluateRest σ, pure_bind]

end

variable {library place}

mutual

/-- A constant that compiles writes out a value. -/
theorem Operand.exists_denotes_of_compile : ∀ {operand : Operand} {names after : Names}
    {result : ChainExtract.Operand × ValueType}, operand.IsConstant →
    (operand.compile library place).run names = .ok (result, after) →
    ∃ value, operand.Denotes value
  | .literal json, names, after, (compiled, type), _, hcompile => by
      obtain ⟨value, hvalue, _⟩ := of_compile_literal_ok hcompile
      exact ⟨value, .literal (literal_eq_ok_iff.mp hvalue)⟩
  | .address value, _, _, _, _, _ => ⟨_, .address value⟩
  | .bytes value, _, _, _, _, _ => ⟨_, .bytes value⟩
  | .integer text, names, after, (compiled, type), _, hcompile => by
      obtain ⟨_, hnumber, _⟩ := of_compile_integer_ok hcompile
      exact ⟨_, .integer hnumber⟩
  | .list items, names, after, (compiled, type), .list hitems, hcompile => by
      obtain ⟨_, _, hcompileAll, _⟩ := of_compile_list_ok hcompile
      obtain ⟨values, hvalues⟩ := Operand.exists_denotes_of_compileAll hitems hcompileAll
      exact ⟨_, .list hvalues⟩

theorem Operand.exists_denotes_of_compileAll : ∀ {operands : List Operand}
    {names after : Names} {results : List ChainExtract.Operand × List ValueType},
    (∀ operand ∈ operands, operand.IsConstant) →
    (compileAll library place operands).run names = .ok (results, after) →
    ∃ values, List.Forall₂ Operand.Denotes operands values
  | [], _, _, _, _, _ => ⟨[], .nil⟩
  | operand :: operands, names, after, (compiled, types), hconstant, hcompile => by
      obtain ⟨hfirst, hrest⟩ := List.forall_mem_cons.mp hconstant
      obtain ⟨_, _, _, _, _, hcompileFirst, hcompileRest, _⟩ := of_compileAll_cons_ok hcompile
      obtain ⟨value, hvalue⟩ := Operand.exists_denotes_of_compile hfirst hcompileFirst
      obtain ⟨values, hvalues⟩ := Operand.exists_denotes_of_compileAll hrest hcompileRest
      exact ⟨_, .cons hvalue hvalues⟩

end

/-- A constant compiles just when it writes out a value, and its static type is then the type of
the value that it evaluates to, in every state of every run. -/
theorem Operand.type_exact_of_isConstant {operand : Operand} (hconstant : operand.IsConstant)
    (library : Library) (place : Option Scope) (names : Names) :
    ((∃ result, (operand.compile library place).run names = .ok result) ↔
        ∃ value, operand.Denotes value) ∧
      ∀ compiled type after,
        (operand.compile library place).run names = .ok ((compiled, type), after) →
        ∃ value, operand.Denotes value ∧ type = value.type ∧ after = names ∧
          ∀ σ : Type, (compiled.evaluate : Run σ Value) = pure value := by
  refine ⟨⟨?_, ?_⟩, ?_⟩
  · rintro ⟨result, hcompile⟩
    exact Operand.exists_denotes_of_compile hconstant hcompile
  · rintro ⟨value, hvalue⟩
    obtain ⟨compiled, hcompile, _⟩ :=
      Operand.exists_compiled_of_denotes library place names hvalue
    exact ⟨_, hcompile⟩
  · intro compiled type after hcompile
    obtain ⟨value, hvalue⟩ := Operand.exists_denotes_of_compile hconstant hcompile
    obtain ⟨found, hfound, hevaluate⟩ :=
      Operand.exists_compiled_of_denotes library place names hvalue
    cases hcompile.symm.trans hfound
    exact ⟨value, hvalue, rfl, rfl, hevaluate⟩

/-- Two lists of lists of integers, of which the first is made of operands and the second is a
literal that ends with the given list. -/
def nestedConstant (last : List JsonValue) : Operand :=
  .list
    [.list [.list [.integer "0xff"], .literal (.list [.scalar (.integer 5)])],
      .literal (.list [.list [.scalar (.integer 1)], .list last])]

theorem isConstant_nestedConstant (last : List JsonValue) : (nestedConstant last).IsConstant := by
  have hnumber : (Operand.list [.integer "0xff"]).IsConstant :=
    .list (by simpa using .integer "0xff")
  have hfirst : (Operand.list [.list [.integer "0xff"],
      .literal (.list [.scalar (.integer 5)])]).IsConstant :=
    .list (by simpa using ⟨hnumber, .literal _⟩)
  exact .list (by simpa using ⟨hfirst, .literal _⟩)

/-- As long as no list is empty the two lists have one type, which the whole list keeps. An empty
list makes them differ, however deep it stands. -/
theorem Operand.type_exact_of_isConstant_nested :
    (nestedConstant [.scalar (.integer 2)]).IsConstant ∧ (nestedConstant []).IsConstant ∧
      (∃ compiled value,
        ((nestedConstant [.scalar (.integer 2)]).compile .standard none).run {} =
            .ok ((compiled, .list (.list (.list .int))), {}) ∧
          .list (.list (.list .int)) = value.type ∧
          ∀ σ : Type, (compiled.evaluate : Run σ Value) = pure value) ∧
      ∃ compiled value,
        ((nestedConstant []).compile .standard none).run {} = .ok ((compiled, .list .any), {}) ∧
          .list .any = value.type ∧
          ∀ σ : Type, (compiled.evaluate : Run σ Value) = pure value := by
  have hfull := isConstant_nestedConstant [.scalar (.integer 2)]
  have hempty := isConstant_nestedConstant []
  have hcompileFull : ((nestedConstant [.scalar (.integer 2)]).compile .standard none).run {} =
      .ok ((_, .list (.list (.list .int))), {}) := rfl
  have hcompileEmpty : ((nestedConstant []).compile .standard none).run {} =
      .ok ((_, .list .any), {}) := rfl
  obtain ⟨value, _, htype, _, hevaluate⟩ :=
    (type_exact_of_isConstant hfull .standard none {}).2 _ _ _ hcompileFull
  obtain ⟨other, _, hother, _, hevaluateOther⟩ :=
    (type_exact_of_isConstant hempty .standard none {}).2 _ _ _ hcompileEmpty
  exact ⟨hfull, hempty, ⟨_, value, hcompileFull, htype, hevaluate⟩,
    ⟨_, other, hcompileEmpty, hother, hevaluateOther⟩⟩

end

end Plan

end ChainExtract
