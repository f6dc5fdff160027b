import ChainExtract.Proofs.Scoping.Parts

/-! # Operands

A compiled operand has the value that the operand has in the frames, and the type
that the compilation found is the static type there.
-/

namespace ChainExtract

variable {σ : Type} {settings : Settings σ}

namespace Plan

theorem evaluates_invoke (library : Library) {names after : Names} (hsound : names.Sound)
    {name : String} {types : List ValueType} {result : Option String} {method : Method}
    {storage? : Option String} (hplain : Plain result.toList)
    (hcompile : (resolveCall library name types result).run names =
      .ok ((method, storage?), after)) (values : List Value) :
    Evaluates settings names after (fun value found => found = (value, method.returns))
      (method.invokeInto values storage?) (invoke library name values types result) := by
  obtain ⟨found, middle, hresolve, hrest⟩ := Compiler.of_bind_ok hcompile
  obtain ⟨hmethod, rfl⟩ := Compiler.of_ofExcept_ok hresolve
  have hinvoke : Evaluates settings middle middle Eq (found.invoke values : Run σ Value)
      (found.invoke values) := .of_steady hsound fun _ => found.steady_invoke values
  unfold invoke Method.invokeInto
  rw [hmethod]
  cases result with
  | none =>
      obtain ⟨rfl, rfl, rfl⟩ := Compiler.of_pure_pair_ok hrest
      exact hinvoke.map fun value other hsame => by rw [hsame]
  | some target =>
      obtain ⟨storage, last, hassign, hreturn⟩ := Compiler.of_bind_ok hrest
      obtain ⟨rfl, rfl, rfl⟩ := Compiler.of_pure_pair_ok hreturn
      obtain ⟨rfl, rfl⟩ := Compiler.of_assign_ok hassign
      have hname : '#' ∉ target.toList := hplain target (by simp)
      apply hinvoke.bind (hsound.advances_assign hname _)
      rintro value _ rfl
      exact (Evaluates.assign hsound hname _ value).map fun _ _ _ => rfl

mutual

/-- The variables that an operand may declare. -/
def Operand.declares : Operand → List String
  | .call _ arguments result => Operand.declaresAll arguments ++ result.toList
  | .list items => Operand.declaresAll items
  | .stored _ | .chain _ | .address _ | .bytes _ | .integer _ | .literal _ => []

def Operand.declaresAll : List Operand → List String
  | [] => []
  | operand :: operands => Operand.declares operand ++ Operand.declaresAll operands

end

section

variable {library : Library} {place : Option Scope} {names after : Names}
variable {compiled : ChainExtract.Operand} {type : ValueType}

/-! What the compilation of an operand has done, step by step. -/

-- The equations of `compile` are generated once, here, and not by each lemma that unfolds it.
attribute [local simp] Operand.compile

theorem Operand.of_compile_stored_ok {name : String}
    (hcompile : ((stored name).compile library place).run names = .ok ((compiled, type), after)) :
    ∃ declared, names.find? name = some declared ∧ compiled = .stored declared.storage ∧
      type = declared.type ∧ after = names := by
  rw [Operand.compile] at hcompile
  obtain ⟨_, _, hget, hrest⟩ := Compiler.of_bind_ok hcompile
  cases hget
  cases hfind : names.find? name with
  | none =>
      rw [hfind] at hrest
      cases hrest
  | some declared =>
      rw [hfind] at hrest
      obtain ⟨rfl, rfl, rfl⟩ := Compiler.of_pure_pair_ok hrest
      exact ⟨declared, rfl, rfl, rfl, rfl⟩

theorem Operand.of_compile_chain_ok {name : String}
    (hcompile : ((chain name).compile library place).run names = .ok ((compiled, type), after)) :
    ∃ var, ChainVariable.find? name = some var ∧ place.any var.scope.visibleIn = true ∧
      compiled = .chain name ∧ type = var.type ∧ after = names := by
  rw [Operand.compile] at hcompile
  cases hfind : ChainVariable.find? name with
  | none =>
      rw [hfind] at hcompile
      cases hcompile
  | some var =>
      rw [hfind] at hcompile
      simp only at hcompile
      split at hcompile
      next hvisible =>
        obtain ⟨rfl, rfl, rfl⟩ := Compiler.of_pure_pair_ok hcompile
        exact ⟨var, rfl, hvisible, rfl, rfl, rfl⟩
      next => cases hcompile

theorem Operand.of_compile_call_ok {name : String} {arguments : List Operand}
    {result : Option String}
    (hcompile : ((call name arguments result).compile library place).run names =
      .ok ((compiled, type), after)) :
    ∃ operands types second method storage?,
      (Operand.compileAll library place arguments).run names = .ok ((operands, types), second) ∧
      (resolveCall library name types result).run second = .ok ((method, storage?), after) ∧
      compiled = .call method operands storage? ∧ type = method.returns := by
  rw [Operand.compile] at hcompile
  obtain ⟨⟨operands, types⟩, second, harguments, hrest⟩ := Compiler.of_bind_ok hcompile
  obtain ⟨⟨method, storage?⟩, last, hresolve, hreturn⟩ := Compiler.of_bind_ok hrest
  obtain ⟨rfl, rfl, rfl⟩ := Compiler.of_pure_pair_ok hreturn
  exact ⟨operands, types, second, method, storage?, harguments, hresolve, rfl, rfl⟩

theorem Operand.of_compile_list_ok {items : List Operand}
    (hcompile : ((list items).compile library place).run names = .ok ((compiled, type), after)) :
    ∃ operands types,
      (Operand.compileAll library place items).run names = .ok ((operands, types), after) ∧
      compiled = .list operands ∧ type = listType types := by
  rw [Operand.compile] at hcompile
  obtain ⟨⟨operands, types⟩, second, hitems, hreturn⟩ := Compiler.of_bind_ok hcompile
  obtain ⟨rfl, rfl, rfl⟩ := Compiler.of_pure_pair_ok hreturn
  exact ⟨operands, types, hitems, rfl, rfl⟩

theorem Operand.of_compile_address_ok {value : Address}
    (hcompile : ((address value).compile library place).run names =
      .ok ((compiled, type), after)) :
    compiled = .literal (.addr value) ∧ type = .address ∧ after = names := by
  rw [Operand.compile] at hcompile
  obtain ⟨rfl, rfl, rfl⟩ := Compiler.of_pure_pair_ok hcompile
  exact ⟨rfl, rfl, rfl⟩

theorem Operand.of_compile_bytes_ok {value : Bytes}
    (hcompile : ((bytes value).compile library place).run names = .ok ((compiled, type), after)) :
    compiled = .literal (.bytes value) ∧ type = .bytes ∧ after = names := by
  rw [Operand.compile] at hcompile
  obtain ⟨rfl, rfl, rfl⟩ := Compiler.of_pure_pair_ok hcompile
  exact ⟨rfl, rfl, rfl⟩

theorem Operand.of_compile_integer_ok {text : String}
    (hcompile : ((integer text).compile library place).run names =
      .ok ((compiled, type), after)) :
    ∃ n, integer? text = some n ∧ compiled = .literal (.int n) ∧ type = .int ∧ after = names := by
  rw [Operand.compile] at hcompile
  cases hnumber : integer? text with
  | none =>
      rw [hnumber] at hcompile
      cases hcompile
  | some n =>
      rw [hnumber] at hcompile
      obtain ⟨rfl, rfl, rfl⟩ := Compiler.of_pure_pair_ok hcompile
      exact ⟨n, rfl, rfl, rfl, rfl⟩

theorem Operand.of_compile_literal_ok {json : JsonValue}
    (hcompile : ((literal json).compile library place).run names =
      .ok ((compiled, type), after)) :
    ∃ value, Plan.literal json = .ok value ∧ compiled = .literal value ∧ type = value.type ∧
      after = names := by
  rw [Operand.compile] at hcompile
  obtain ⟨value, middle, hlift, hreturn⟩ := Compiler.of_bind_ok hcompile
  obtain ⟨hvalue, rfl⟩ := Compiler.of_lift_ok hlift
  obtain ⟨rfl, rfl, rfl⟩ := Compiler.of_pure_pair_ok hreturn
  exact ⟨value, hvalue, rfl, rfl, rfl⟩

theorem Operand.of_compileAll_cons_ok {operand : Operand} {operands : List Operand}
    {compiled : List ChainExtract.Operand} {types : List ValueType}
    (hcompile : (Operand.compileAll library place (operand :: operands)).run names =
      .ok ((compiled, types), after)) :
    ∃ first type second rest restTypes,
      (operand.compile library place).run names = .ok ((first, type), second) ∧
      (Operand.compileAll library place operands).run second = .ok ((rest, restTypes), after) ∧
      compiled = first :: rest ∧ types = type :: restTypes := by
  rw [Operand.compileAll] at hcompile
  obtain ⟨⟨first, type⟩, second, hfirst, hothers⟩ := Compiler.of_bind_ok hcompile
  obtain ⟨⟨rest, restTypes⟩, last, hrest, hreturn⟩ := Compiler.of_bind_ok hothers
  obtain ⟨rfl, rfl, rfl⟩ := Compiler.of_pure_pair_ok hreturn
  exact ⟨first, type, second, rest, restTypes, hfirst, hrest, rfl, rfl⟩

end

section

variable (library : Library) (place : Option Scope)

mutual

/-- An operand that compiles has the value of its compiled form and the type that was found. -/
theorem Operand.evaluates_interpret : ∀ (operand : Operand) {names after : Names}
    {compiled : ChainExtract.Operand} {type : ValueType}, Plain operand.declares → names.Sound →
    (Operand.compile library place operand).run names = .ok ((compiled, type), after) →
    Evaluates settings names after (fun value result => result = (value, type))
      compiled.evaluate (operand.interpret library)
  | .stored name, names, after, compiled, type, _, hsound, hcompile => by
      obtain ⟨declared, hfind, rfl, rfl, rfl⟩ := Operand.of_compile_stored_ok hcompile
      rw [ChainExtract.Operand.evaluate, Operand.interpret]
      exact .lookup hsound hfind
  | .chain name, names, after, compiled, type, _, hsound, hcompile => by
      obtain ⟨var, hfind, _, rfl, rfl, rfl⟩ := Operand.of_compile_chain_ok hcompile
      rw [ChainExtract.Operand.evaluate, Operand.interpret, hfind]
      refine .of_steady hsound fun F => ?_
      refine Run.steady_state.bind fun state framed hview => ?_
      rw [hview.cursor]
      apply (Run.steady_ofExcept _).bind_right
      rintro value _ rfl
      exact Run.simulates_pure rfl
  | .call name arguments result, names, after, compiled, type, hplain, hsound, hcompile => by
      rw [Operand.declares] at hplain
      obtain ⟨hargumentNames, hresultNames⟩ := plain_append.mp hplain
      obtain ⟨operands, types, middle, method, storage?, harguments, hresolve, rfl, rfl⟩ :=
        Operand.of_compile_call_ok hcompile
      have hevaluates :=
        Operand.evaluatesAll_interpretAll arguments hargumentNames hsound harguments
      have hinvoke (values : List Value) : Evaluates settings middle after
          (fun value found => found = (value, method.returns)) (method.invokeInto values storage?)
          (invoke library name values types result) :=
        evaluates_invoke library hevaluates.advances.sound hresultNames hresolve values
      rw [ChainExtract.Operand.evaluate, Operand.interpret]
      -- how the names advance does not depend on the values, so any of them will do
      apply hevaluates.bind (hinvoke []).advances
      rintro values _ rfl
      exact hinvoke values
  | .list items, names, after, compiled, type, hplain, hsound, hcompile => by
      rw [Operand.declares] at hplain
      obtain ⟨operands, types, hitems, rfl, rfl⟩ := Operand.of_compile_list_ok hcompile
      rw [ChainExtract.Operand.evaluate, Operand.interpret]
      apply (Operand.evaluatesAll_interpretAll items hplain hsound hitems).map
      rintro values _ rfl
      rfl
  | .address value, names, after, compiled, type, _, hsound, hcompile => by
      obtain ⟨rfl, rfl, rfl⟩ := Operand.of_compile_address_ok hcompile
      rw [ChainExtract.Operand.evaluate, Operand.interpret]
      exact .pure hsound rfl
  | .bytes value, names, after, compiled, type, _, hsound, hcompile => by
      obtain ⟨rfl, rfl, rfl⟩ := Operand.of_compile_bytes_ok hcompile
      rw [ChainExtract.Operand.evaluate, Operand.interpret]
      exact .pure hsound rfl
  | .integer text, names, after, compiled, type, _, hsound, hcompile => by
      obtain ⟨n, hnumber, rfl, rfl, rfl⟩ := Operand.of_compile_integer_ok hcompile
      rw [ChainExtract.Operand.evaluate, Operand.interpret, hnumber]
      exact .pure hsound rfl
  | .literal json, names, after, compiled, type, _, hsound, hcompile => by
      obtain ⟨value, hvalue, rfl, rfl, rfl⟩ := Operand.of_compile_literal_ok hcompile
      rw [ChainExtract.Operand.evaluate, Operand.interpret, hvalue]
      exact .pure hsound rfl

theorem Operand.evaluatesAll_interpretAll : ∀ (operands : List Operand) {names after : Names}
    {compiled : List ChainExtract.Operand} {types : List ValueType},
    Plain (Operand.declaresAll operands) → names.Sound →
    (Operand.compileAll library place operands).run names = .ok ((compiled, types), after) →
    Evaluates settings names after (fun values result => result = (values, types))
      (ChainExtract.Operand.evaluateAll compiled) (Operand.interpretAll library operands)
  | [], names, after, compiled, types, _, hsound, hcompile => by
      rw [Operand.compileAll] at hcompile
      obtain ⟨rfl, rfl, rfl⟩ := Compiler.of_pure_pair_ok hcompile
      rw [ChainExtract.Operand.evaluateAll, Operand.interpretAll]
      exact .pure hsound rfl
  | operand :: operands, names, after, compiled, types, hplain, hsound, hcompile => by
      rw [Operand.declaresAll] at hplain
      obtain ⟨hfirstNames, hrestNames⟩ := plain_append.mp hplain
      obtain ⟨first, type, middle, rest, restTypes, hfirst, hrest, rfl, rfl⟩ :=
        Operand.of_compileAll_cons_ok hcompile
      have hevaluates := Operand.evaluates_interpret operand hfirstNames hsound hfirst
      have hlater := Operand.evaluatesAll_interpretAll operands hrestNames
        hevaluates.advances.sound hrest
      rw [ChainExtract.Operand.evaluateAll, Operand.interpretAll]
      apply hevaluates.bind hlater.advances
      rintro value _ rfl
      apply hlater.map
      rintro values _ rfl
      rfl

end

/-- The compilation of an operand under conditions on its type. -/
def Operand.Restricts (compile : Operand → Compiler ChainExtract.Operand) : Prop :=
  ∀ {operand : Operand} {names after : Names} {compiled : ChainExtract.Operand},
    (compile operand).run names = .ok (compiled, after) →
    ∃ type, (Operand.compile library place operand).run names = .ok ((compiled, type), after)

theorem Operand.restricts_compileTyped (context : String) (expected : ValueType) :
    Operand.Restricts library place (Operand.compileTyped library place context expected) := by
  intro operand names after compiled hcompile
  obtain ⟨⟨found, type⟩, middle, hfound, hrest⟩ := Compiler.of_bind_ok hcompile
  simp only at hrest
  split at hrest
  · obtain ⟨rfl, rfl⟩ := Compiler.of_pure_ok hrest
    exact ⟨type, hfound⟩
  · cases hrest

theorem Operand.restricts_compileAddresses (context : String) :
    Operand.Restricts library place (Operand.compileAddresses library place context) := by
  intro operand names after compiled hcompile
  obtain ⟨⟨found, type⟩, middle, hfound, hrest⟩ := Compiler.of_bind_ok hcompile
  simp only at hrest
  split at hrest
  · obtain ⟨rfl, rfl⟩ := Compiler.of_pure_ok hrest
    exact ⟨_, hfound⟩
  · obtain ⟨rfl, rfl⟩ := Compiler.of_pure_ok hrest
    exact ⟨_, hfound⟩
  · obtain ⟨rfl, rfl⟩ := Compiler.of_pure_ok hrest
    exact ⟨_, hfound⟩
  · obtain ⟨rfl, rfl⟩ := Compiler.of_pure_ok hrest
    exact ⟨_, hfound⟩
  · cases hrest

variable {library place} {names after : Names}

theorem Operand.evaluates_value {compile : Operand → Compiler ChainExtract.Operand}
    (hcompile : Operand.Restricts library place compile) {operand : Operand}
    (hplain : Plain operand.declares) (hsound : names.Sound) {compiled : ChainExtract.Operand}
    (hrun : (compile operand).run names = .ok (compiled, after)) :
    Evaluates settings names after (fun value result => result.1 = value) compiled.evaluate
      (operand.interpret library) := by
  obtain ⟨type, hoperand⟩ := hcompile hrun
  exact (Operand.evaluates_interpret library place operand hplain hsound hoperand).imp
    fun _ _ hresult => congrArg Prod.fst hresult

theorem Operand.evaluates_typed {context : String} {expected : ValueType} {operand : Operand}
    (hplain : Plain operand.declares) (hsound : names.Sound) {compiled : ChainExtract.Operand}
    (hrun : (Operand.compileTyped library place context expected operand).run names =
      .ok (compiled, after)) :
    Evaluates settings names after (fun value result => result.1 = value) compiled.evaluate
      (operand.interpret library) :=
  Operand.evaluates_value (Operand.restricts_compileTyped library place context expected) hplain
    hsound hrun

def Operand.declares? : Option Operand → List String
  | none => []
  | some operand => operand.declares

theorem Operand.evaluates_interpret? {compile : Operand → Compiler ChainExtract.Operand}
    (hcompile : Operand.Restricts library place compile) {operand? : Option Operand}
    (hplain : Plain (Operand.declares? operand?)) (hsound : names.Sound)
    {compiled? : Option ChainExtract.Operand}
    (hrun : (Operand.compile? compile operand?).run names = .ok (compiled?, after)) :
    Evaluates settings names after Eq (ChainExtract.Operand.evaluate? compiled?)
      (Operand.interpret? library operand?) := by
  cases operand? with
  | none =>
      obtain ⟨rfl, rfl⟩ := Compiler.of_pure_ok hrun
      exact .pure hsound rfl
  | some operand =>
      rw [Operand.compile?, map_eq_pure_bind] at hrun
      obtain ⟨compiled, middle, hoperand, hreturn⟩ := Compiler.of_bind_ok hrun
      obtain ⟨rfl, rfl⟩ := Compiler.of_pure_ok hreturn
      exact (Operand.evaluates_value hcompile hplain hsound hoperand).map
        fun _ _ hresult => congrArg some hresult.symm

theorem Operand.evaluates_typed? {context : String} {expected : ValueType}
    {operand? : Option Operand} (hplain : Plain (Operand.declares? operand?))
    (hsound : names.Sound) {compiled? : Option ChainExtract.Operand}
    (hrun : (Operand.compile? (Operand.compileTyped library place context expected) operand?).run
      names = .ok (compiled?, after)) :
    Evaluates settings names after Eq (ChainExtract.Operand.evaluate? compiled?)
      (Operand.interpret? library operand?) :=
  Operand.evaluates_interpret? (Operand.restricts_compileTyped library place context expected)
    hplain hsound hrun

theorem Operand.evaluates_interpretAddresses (context subject : String)
    {operand? : Option Operand} (hplain : Plain (Operand.declares? operand?))
    (hsound : names.Sound) {compiled? : Option ChainExtract.Operand}
    (hrun : (Operand.compile? (Operand.compileAddresses library place context) operand?).run names =
      .ok (compiled?, after)) :
    Evaluates settings names after Eq (evaluateAddresses subject compiled?)
      (Operand.interpretAddresses library subject operand?) := by
  have hvalue : Evaluates settings names after Eq (ChainExtract.Operand.evaluate? compiled?)
      (Operand.interpret? library operand?) :=
    Operand.evaluates_interpret? (Operand.restricts_compileAddresses library place context) hplain
      hsound hrun
  apply hvalue.bind (.refl hvalue.advances.sound)
  rintro value _ rfl
  exact .of_steady hvalue.advances.sound fun _ => Run.steady_ofExcept _

def Operand.declaresCells (columns : List (String × Operand)) : List String :=
  columns.flatMap fun column => column.2.declares

theorem Operand.evaluates_interpretCells (columns : List (String × Operand)) {names after : Names}
    {compiled : List (String × ChainExtract.Operand)}
    (hplain : Plain (Operand.declaresCells columns)) (hsound : names.Sound)
    (hcompile : (Operand.compileNamed library place columns).run names = .ok (compiled, after)) :
    Evaluates settings names after Eq (ChainExtract.Operand.evaluateCells compiled)
      (Operand.interpretCells library columns) := by
  induction columns generalizing names compiled with
  | nil =>
      obtain ⟨rfl, rfl⟩ := Compiler.of_pure_ok hcompile
      exact .pure hsound rfl
  | cons column columns ih =>
      obtain ⟨hfirstNames, hrestNames⟩ := plain_append.mp hplain
      obtain ⟨⟨first, type⟩, middle, hfirst, hrest⟩ := Compiler.of_bind_ok hcompile
      obtain ⟨rest, last, hcolumns, hreturn⟩ := Compiler.of_bind_ok hrest
      obtain ⟨rfl, rfl⟩ := Compiler.of_pure_ok hreturn
      have hevaluates : Evaluates settings names middle (fun value result => result = (value, type))
          first.evaluate (column.2.interpret library) :=
        Operand.evaluates_interpret library place column.2 hfirstNames hsound hfirst
      have hlater := ih hrestNames hevaluates.advances.sound hcolumns
      apply hevaluates.bind hlater.advances
      rintro value _ rfl
      apply hlater.map
      rintro cells _ rfl
      rfl

def Attribute.declaresAll (attributes : List Attribute) : List String :=
  attributes.flatMap fun entry => entry.value.declares

theorem Attribute.evaluates_interpretAll (attributes : List Attribute) {names after : Names}
    {compiled : List AttributeOperand} (hplain : Plain (Attribute.declaresAll attributes))
    (hsound : names.Sound)
    (hcompile : (Attribute.compileAll library place attributes).run names =
      .ok (compiled, after)) :
    Evaluates settings names after Eq (ChainExtract.Operand.evaluateAttributes compiled)
      (Attribute.interpretAll library attributes) := by
  induction attributes generalizing names compiled with
  | nil =>
      obtain ⟨rfl, rfl⟩ := Compiler.of_pure_ok hcompile
      exact .pure hsound rfl
  | cons entry attributes ih =>
      obtain ⟨hfirstNames, hrestNames⟩ := plain_append.mp hplain
      obtain ⟨⟨first, type⟩, middle, hfirst, hrest⟩ := Compiler.of_bind_ok hcompile
      obtain ⟨rest, last, hattributes, hreturn⟩ := Compiler.of_bind_ok hrest
      obtain ⟨rfl, rfl⟩ := Compiler.of_pure_ok hreturn
      have hevaluates : Evaluates settings names middle (fun value result => result = (value, type))
          first.evaluate (entry.value.interpret library) :=
        Operand.evaluates_interpret library place entry.value hfirstNames hsound hfirst
      have hlater := ih hrestNames hevaluates.advances.sound hattributes
      apply hevaluates.bind hlater.advances
      rintro value _ rfl
      refine Evaluates.bind (.of_steady hevaluates.advances.sound fun _ => Run.steady_ofExcept _)
        hlater.advances ?_
      rintro converted _ rfl
      apply hlater.map
      rintro attributes _ rfl
      rfl

end

end Plan

end ChainExtract
