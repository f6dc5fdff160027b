import ChainExtract.Proofs.Definite.Reads

/-! # Operands read what is set

Operands read variables that are visible and chain items that can be read at their place, and
leave their results behind in variables that are visible from then on. The inputs of a question
to a contract may read what the inputs before have left.
-/

namespace ChainExtract

variable {σ : Type} {settings : Settings σ} {start : RunState σ} {place : Option Scope}

namespace Run

variable {names after : Names}

theorem reads_lookup {name : String} {declared : Declared}
    (hfind : names.find? name = some declared) :
    (lookup declared.storage).Reads settings start place names names := by
  intro cursor _ state hstate
  obtain ⟨frames, hholding⟩ := hstate.stored
  obtain ⟨value, _, hstored⟩ := hholding.framed.find?_some hfind
  have hrun : (lookup declared.storage).run settings state = .ok value state := by
    simp [lookup, Store.get, hstored]
  rw [hrun]
  exact hstate

theorem reads_valueAt {name : String} {var : ChainVariable}
    (hfind : ChainVariable.find? name = some var)
    (hvisible : place.any var.scope.visibleIn = true) :
    (do ofExcept (ChainVariable.valueAt name (← Run.state).cursor)).Reads settings start place
      names names := by
  intro cursor hstands state hstate
  have hpresent := hstands.present var.scope hvisible
  simp only [run_bind, run_state, ChainVariable.valueAt, hfind, hstate.cursor]
  cases hresolve : var.resolve cursor with
  | ok value => exact hstate
  | error error =>
      obtain ⟨_, hmissing⟩ := var.failsOnly_resolve cursor error hresolve
      generalize var.scope = scope at hpresent hmissing
      cases scope <;> simp [Cursor.hasItem, hmissing] at hpresent

theorem watches_invokeInto (method : Method) (arguments : List Value) (result : Option String) :
    (method.invokeInto arguments result).Watches settings start place names :=
  watches_of_sustains fun _ hstands =>
    sustains_invokeInto operandStable_watched (expects_watched hstands) method arguments result

theorem watches_assign (name : String) (value : Value) :
    (assign name value).Watches settings start place names :=
  watches_of_sustains fun _ _ => sustains_assign operandStable_watched name value

end Run

namespace Plan

variable {library : Library} {names after : Names}

section Operands

mutual

/-- An operand that compiles reads what is set. -/
theorem Operand.reads_evaluate : ∀ (operand : Operand) {names after : Names}
    {compiled : ChainExtract.Operand} {type : ValueType}, Plain operand.declares → names.Sound →
    (operand.compile library place).run names = .ok ((compiled, type), after) →
    compiled.evaluate.Reads settings start place names after
  | .stored name, names, after, compiled, type, _, _, hcompile => by
      obtain ⟨declared, hfind, rfl, _, rfl⟩ := Operand.of_compile_stored_ok hcompile
      rw [ChainExtract.Operand.evaluate]
      exact Run.reads_lookup hfind
  | .chain name, names, after, compiled, type, _, _, hcompile => by
      obtain ⟨var, hfind, hvisible, rfl, _, rfl⟩ := Operand.of_compile_chain_ok hcompile
      rw [ChainExtract.Operand.evaluate]
      exact Run.reads_valueAt hfind hvisible
  | .call name arguments result, names, after, compiled, type, hplain, hsound, hcompile => by
      rw [Operand.declares] at hplain
      obtain ⟨hargumentNames, hresultNames⟩ := plain_append.mp hplain
      obtain ⟨operands, types, middle, method, storage?, harguments, hresolve, rfl, _⟩ :=
        Operand.of_compile_call_ok hcompile
      have hvalues : Evaluates settings names middle _ _ _ :=
        Operand.evaluatesAll_interpretAll library place arguments hargumentNames hsound harguments
      rw [ChainExtract.Operand.evaluate]
      apply (Operand.reads_evaluateAll arguments hargumentNames hsound harguments).bind
      intro values
      exact (evaluates_invoke library hvalues.advances.sound hresultNames hresolve values).reads
        (Run.watches_invokeInto method values storage?)
  | .list items, names, after, compiled, type, hplain, hsound, hcompile => by
      rw [Operand.declares] at hplain
      obtain ⟨operands, types, hitems, rfl, _⟩ := Operand.of_compile_list_ok hcompile
      rw [ChainExtract.Operand.evaluate]
      exact (Operand.reads_evaluateAll items hplain hsound hitems).bind fun _ => Run.reads_pure _
  | .address value, names, after, compiled, type, _, _, hcompile => by
      obtain ⟨rfl, _, rfl⟩ := Operand.of_compile_address_ok hcompile
      rw [ChainExtract.Operand.evaluate]
      exact Run.reads_pure _
  | .bytes value, names, after, compiled, type, _, _, hcompile => by
      obtain ⟨rfl, _, rfl⟩ := Operand.of_compile_bytes_ok hcompile
      rw [ChainExtract.Operand.evaluate]
      exact Run.reads_pure _
  | .integer text, names, after, compiled, type, _, _, hcompile => by
      obtain ⟨n, _, rfl, _, rfl⟩ := Operand.of_compile_integer_ok hcompile
      rw [ChainExtract.Operand.evaluate]
      exact Run.reads_pure _
  | .literal json, names, after, compiled, type, _, _, hcompile => by
      obtain ⟨value, _, rfl, _, rfl⟩ := Operand.of_compile_literal_ok hcompile
      rw [ChainExtract.Operand.evaluate]
      exact Run.reads_pure _

theorem Operand.reads_evaluateAll : ∀ (operands : List Operand) {names after : Names}
    {compiled : List ChainExtract.Operand} {types : List ValueType},
    Plain (Operand.declaresAll operands) → names.Sound →
    (Operand.compileAll library place operands).run names = .ok ((compiled, types), after) →
    (ChainExtract.Operand.evaluateAll compiled).Reads settings start place names after
  | [], names, after, compiled, types, _, _, hcompile => by
      rw [Operand.compileAll] at hcompile
      obtain ⟨rfl, rfl, rfl⟩ := Compiler.of_pure_pair_ok hcompile
      rw [ChainExtract.Operand.evaluateAll]
      exact Run.reads_pure _
  | operand :: operands, names, after, compiled, types, hplain, hsound, hcompile => by
      rw [Operand.declaresAll] at hplain
      obtain ⟨hfirstNames, hrestNames⟩ := plain_append.mp hplain
      obtain ⟨first, type, middle, rest, restTypes, hfirst, hoperands, rfl, _⟩ :=
        Operand.of_compileAll_cons_ok hcompile
      have hevaluates : Evaluates settings names middle _ _ _ :=
        Operand.evaluates_interpret library place operand hfirstNames hsound hfirst
      rw [ChainExtract.Operand.evaluateAll]
      exact (Operand.reads_evaluate operand hfirstNames hsound hfirst).bind fun _ =>
        (Operand.reads_evaluateAll operands hrestNames hevaluates.advances.sound hoperands).bind
          fun _ => Run.reads_pure _

end

theorem Operand.reads_restricted {compile : Operand → Compiler ChainExtract.Operand}
    (hcompile : Operand.Restricts library place compile) {operand : Operand}
    (hplain : Plain operand.declares) (hsound : names.Sound) {compiled : ChainExtract.Operand}
    (hrun : (compile operand).run names = .ok (compiled, after)) :
    compiled.evaluate.Reads settings start place names after := by
  obtain ⟨_, hoperand⟩ := hcompile hrun
  exact Operand.reads_evaluate operand hplain hsound hoperand

theorem Operand.reads_typed {context : String} {expected : ValueType} {operand : Operand}
    (hplain : Plain operand.declares) (hsound : names.Sound) {compiled : ChainExtract.Operand}
    (hrun : (Operand.compileTyped library place context expected operand).run names =
      .ok (compiled, after)) : compiled.evaluate.Reads settings start place names after :=
  Operand.reads_restricted (Operand.restricts_compileTyped library place context expected) hplain
    hsound hrun

theorem Operand.reads_evaluate? {compile : Operand → Compiler ChainExtract.Operand}
    (hcompile : Operand.Restricts library place compile) {operand? : Option Operand}
    (hplain : Plain (Operand.declares? operand?)) (hsound : names.Sound)
    {compiled? : Option ChainExtract.Operand}
    (hrun : (Operand.compile? compile operand?).run names = .ok (compiled?, after)) :
    (ChainExtract.Operand.evaluate? compiled?).Reads settings start place names after := by
  cases operand? with
  | none =>
      obtain ⟨rfl, rfl⟩ := Compiler.of_pure_ok hrun
      exact Run.reads_pure _
  | some operand =>
      rw [Operand.compile?, map_eq_pure_bind] at hrun
      obtain ⟨compiled, middle, hoperand, hreturn⟩ := Compiler.of_bind_ok hrun
      obtain ⟨rfl, rfl⟩ := Compiler.of_pure_ok hreturn
      exact (Operand.reads_restricted hcompile hplain hsound hoperand).bind fun _ =>
        Run.reads_pure _

theorem Operand.reads_evaluateAddresses (context subject : String) {operand? : Option Operand}
    (hplain : Plain (Operand.declares? operand?)) (hsound : names.Sound)
    {compiled? : Option ChainExtract.Operand}
    (hrun : (Operand.compile? (Operand.compileAddresses library place context) operand?).run names =
      .ok (compiled?, after)) :
    (evaluateAddresses subject compiled?).Reads settings start place names after :=
  (Operand.reads_evaluate? (Operand.restricts_compileAddresses library place context) hplain hsound
    hrun).bind fun value? => Run.reads_ofExcept (AddressSet.failsOnly_ofValue subject value?)

theorem Operand.reads_evaluateCells (columns : List (String × Operand))
    {compiled : List (String × ChainExtract.Operand)}
    (hplain : Plain (Operand.declaresCells columns)) (hsound : names.Sound)
    (hcompile : (Operand.compileNamed library place columns).run names = .ok (compiled, after)) :
    (ChainExtract.Operand.evaluateCells compiled).Reads settings start place names after := by
  induction columns generalizing names compiled with
  | nil =>
      obtain ⟨rfl, rfl⟩ := Compiler.of_pure_ok hcompile
      exact Run.reads_pure _
  | cons column columns ih =>
      obtain ⟨hfirstNames, hrestNames⟩ := plain_append.mp hplain
      obtain ⟨⟨first, type⟩, middle, hfirst, hrest⟩ := Compiler.of_bind_ok hcompile
      obtain ⟨rest, last, hcolumns, hreturn⟩ := Compiler.of_bind_ok hrest
      obtain ⟨rfl, rfl⟩ := Compiler.of_pure_ok hreturn
      have hevaluates : Evaluates settings names middle _ _ _ :=
        Operand.evaluates_interpret library place column.2 hfirstNames hsound hfirst
      exact (Operand.reads_evaluate column.2 hfirstNames hsound hfirst).bind fun _ =>
        (ih hrestNames hevaluates.advances.sound hcolumns).bind fun _ => Run.reads_pure _

theorem Attribute.reads_evaluateAttributes (attributes : List Attribute)
    {compiled : List AttributeOperand} (hplain : Plain (Attribute.declaresAll attributes))
    (hsound : names.Sound)
    (hcompile : (Attribute.compileAll library place attributes).run names =
      .ok (compiled, after)) :
    (ChainExtract.Operand.evaluateAttributes compiled).Reads settings start place names after := by
  induction attributes generalizing names compiled with
  | nil =>
      obtain ⟨rfl, rfl⟩ := Compiler.of_pure_ok hcompile
      exact Run.reads_pure _
  | cons entry attributes ih =>
      obtain ⟨hfirstNames, hrestNames⟩ := plain_append.mp hplain
      obtain ⟨⟨first, type⟩, middle, hfirst, hrest⟩ := Compiler.of_bind_ok hcompile
      obtain ⟨rest, last, hattributes, hreturn⟩ := Compiler.of_bind_ok hrest
      obtain ⟨rfl, rfl⟩ := Compiler.of_pure_ok hreturn
      have hevaluates : Evaluates settings names middle _ _ _ :=
        Operand.evaluates_interpret library place entry.value hfirstNames hsound hfirst
      apply (Operand.reads_evaluate entry.value hfirstNames hsound hfirst).bind
      intro value
      exact (Run.reads_ofExcept (XesValue.failsOnly_ofValue entry.type value)).bind fun _ =>
        (ih hrestNames hevaluates.advances.sound hattributes).bind fun _ => Run.reads_pure _

end Operands

end Plan

end ChainExtract
