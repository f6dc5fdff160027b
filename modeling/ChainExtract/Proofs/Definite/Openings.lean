import ChainExtract.Proofs.Definite.Bodies

/-! # Openings read what is set

Before an instruction begins its body it evaluates operands, and asks questions to a contract.
All of this reads what is set, and leaves the variables stored that are visible to the body.
-/

namespace ChainExtract.Plan

variable {σ : Type} {library : Library} {place : Option Scope} {names after : Names}
variable {body : List Instruction} {compiled : ChainExtract.Instruction Empty}

theorem Instruction.steady_body (settings : Settings σ) {inner : Names}
    {code : List (ChainExtract.Instruction Empty)} (hplain : Plain (declaresAll body))
    (hsound : names.Sound)
    (hcode : (compileAll library place body).run names.enter = .ok (code, inner)) :
    ∃ framedBody, (ChainExtract.Instruction.executeAll Empty.elim code).Steady settings
      (Holding names []) Eq framedBody := by
  have hevaluates : Evaluates settings names.enter inner _ _ _ :=
    Instruction.evaluatesAll_interpretAll library Empty.elim body hplain hsound.enter hcode
  exact ⟨_, hevaluates.steady_within hsound (by simp)⟩

section

variable (settings : Settings σ)

theorem Instruction.reads_of_compile_blocks {first : Operand} {last : Option Operand}
    (hplain : Plain (blocks first last body).declares) (hsound : names.Sound)
    (hcompile : ((blocks first last body).compile library place).run names =
      .ok (compiled, after)) :
    ∃ lower upper code second third inner,
      compiled = .blocks lower upper code ∧ place = none ∧
      ((blocks first last body).opening library place).run names = .ok ((), third.enter) ∧
      (∀ start : RunState σ, lower.evaluate.Reads settings start none names second) ∧
      (∀ start : RunState σ, (ChainExtract.Operand.evaluate? upper).Reads settings start none
        second third) ∧
      third.Sound ∧ (compileAll library (some .block) body).run third.enter = .ok (code, inner) := by
  rw [Instruction.declares, plain_append, plain_append] at hplain
  obtain ⟨hfirstNames, hlastNames, _⟩ := hplain
  have hplace := Compiler.contains_of_requirePlace_bind_ok
    (by rwa [Instruction.compile] at hcompile)
  obtain rfl : place = none := by simpa using hplace
  obtain ⟨lower, upper, code, second, third, inner, hlower, hupper, hcode, rfl, rfl⟩ :=
    Instruction.of_compile_blocks_ok hcompile
  have hfirst : Evaluates settings names second _ _ _ :=
    Operand.evaluates_typed hfirstNames hsound hlower
  have hlast : Evaluates settings second third _ _ _ :=
    Operand.evaluates_typed? hlastNames hfirst.advances.sound hupper
  refine ⟨lower, upper, code, second, third, inner, rfl, rfl, ?_,
    fun _ => Operand.reads_typed hfirstNames hsound hlower, fun _ => ?_, hlast.advances.sound, hcode⟩
  · rw [Instruction.opening, Compiler.run_bind_of_ok hlower, Compiler.run_bind_of_ok hupper]
    rfl
  · exact Operand.reads_evaluate? (Operand.restricts_compileTyped library none _ _) hlastNames
      hfirst.advances.sound hupper

theorem Instruction.reads_of_compile_transactions {senders recipients : Option Operand}
    (hplain : Plain (transactions senders recipients body).declares) (hsound : names.Sound)
    (hcompile : ((transactions senders recipients body).compile library place).run names =
      .ok (compiled, after)) :
    ∃ senders? recipients? code second third inner,
      compiled = .transactions senders? recipients? code ∧ place = some .block ∧
      ((transactions senders recipients body).opening library place).run names =
        .ok ((), third.enter) ∧
      (∀ start : RunState σ, (evaluateAddresses "transaction senders" senders?).Reads settings start
        (some .block) names second) ∧
      (∀ start : RunState σ, (evaluateAddresses "transaction recipients" recipients?).Reads settings
        start (some .block) second third) ∧
      third.Sound ∧
      (compileAll library (some .transaction) body).run third.enter = .ok (code, inner) := by
  rw [Instruction.declares, plain_append, plain_append] at hplain
  obtain ⟨hsenderNames, hrecipientNames, _⟩ := hplain
  have hplace := Compiler.contains_of_requirePlace_bind_ok
    (by rwa [Instruction.compile] at hcompile)
  obtain rfl : place = some .block := by simpa using hplace
  obtain ⟨senders?, recipients?, code, second, third, inner, hfrom, hto, hcode, rfl, rfl⟩ :=
    Instruction.of_compile_transactions_ok hcompile
  have hsenders : Evaluates settings names second _ _ _ :=
    Operand.evaluates_interpretAddresses _ "transaction senders" hsenderNames hsound hfrom
  have hsecond := hsenders.advances.sound
  have hrecipients : Evaluates settings second third _ _ _ :=
    Operand.evaluates_interpretAddresses _ "transaction recipients" hrecipientNames hsecond hto
  refine ⟨senders?, recipients?, code, second, third, inner, rfl, rfl, ?_,
    fun _ => Operand.reads_evaluateAddresses _ _ hsenderNames hsound hfrom,
    fun _ => Operand.reads_evaluateAddresses _ _ hrecipientNames hsecond hto,
    hrecipients.advances.sound, hcode⟩
  rw [Instruction.opening, Compiler.run_bind_of_ok hfrom, Compiler.run_bind_of_ok hto]
  rfl

theorem Instruction.reads_of_compile_logEntries {event : String} {parameters : List Parameter}
    {emitters : Option Operand} (hplain : Plain (logEntries event parameters emitters body).declares)
    (hsound : names.Sound)
    (hcompile : ((logEntries event parameters emitters body).compile library place).run names =
      .ok (compiled, after)) :
    ∃ emitters? stored code second declared inner,
      compiled = .logEntries ⟨event, stored⟩ emitters? code ∧ place = some .transaction ∧
      ((logEntries event parameters emitters body).opening library place).run names =
        .ok ((), (second.enter.declareAll (eventVars ⟨event, declared⟩)).2) ∧
      (∀ start : RunState σ, (evaluateAddresses "log entry addresses" emitters?).Reads settings
        start (some .transaction) names second) ∧
      second.Sound ∧ (∀ var ∈ eventVars ⟨event, declared⟩, '#' ∉ var.1.toList) ∧
      EventDecl.SameShape ⟨event, declared⟩ ⟨event, stored⟩ ∧
      stored.map (·.name) = (second.enter.declareAll (eventVars ⟨event, declared⟩)).1 ∧
      (compileAll library (some .logEntry) body).run
        (second.enter.declareAll (eventVars ⟨event, declared⟩)).2 = .ok (code, inner) := by
  rw [Instruction.declares, plain_append, plain_append] at hplain
  obtain ⟨hemitterNames, hparameterNames, _⟩ := hplain
  have hplace := Compiler.contains_of_requirePlace_bind_ok
    (by rwa [Instruction.compile] at hcompile)
  obtain rfl : place = some .transaction := by simpa using hplace
  obtain ⟨emitters?, stored, code, second, third, inner, hfrom, hparameters, hcode, rfl, rfl⟩ :=
    Instruction.of_compile_logEntries_ok hcompile
  have hentered : (modify Names.enter : Compiler Unit).run second = .ok ((), second.enter) := rfl
  have hopening : ((logEntries event parameters emitters body).opening library
      (some .transaction)).run names = .ok ((), third) := by
    rw [Instruction.opening, Compiler.run_bind_of_ok hfrom, Compiler.run_bind_of_ok hentered,
      Compiler.run_bind_of_ok hparameters]
    rfl
  obtain ⟨declared, _, hnames, hshape, hpair⟩ := Parameter.of_compileAll_ok hparameters
  obtain ⟨hstored, rfl⟩ := Prod.mk.inj hpair
  have hemitters : Evaluates settings names second _ _ _ :=
    Operand.evaluates_interpretAddresses _ "log entry addresses" hemitterNames hsound hfrom
  exact ⟨emitters?, stored, code, second, declared, inner, rfl, rfl, hopening,
    fun _ => Operand.reads_evaluateAddresses _ _ hemitterNames hsound hfrom,
    hemitters.advances.sound, plain_eventVars (hnames ▸ hparameterNames), ⟨rfl, hshape⟩, hstored,
    hcode⟩

theorem Instruction.reads_of_compile_when {condition : Operand}
    (hplain : Plain («when» condition body).declares) (hsound : names.Sound)
    (hcompile : ((«when» condition body).compile library place).run names =
      .ok (compiled, after)) :
    ∃ test code second inner,
      compiled = .when test code ∧
      ((«when» condition body).opening library place).run names = .ok ((), second.enter) ∧
      (∀ start : RunState σ, test.evaluate.Reads settings start place names second) ∧
      second.Sound ∧ (compileAll library place body).run second.enter = .ok (code, inner) := by
  rw [Instruction.declares, plain_append] at hplain
  obtain ⟨test, code, second, inner, htest, hcode, rfl, rfl⟩ :=
    Instruction.of_compile_when_ok hcompile
  have hcondition : Evaluates settings names second _ _ _ :=
    Operand.evaluates_typed hplain.1 hsound htest
  refine ⟨test, code, second, inner, rfl, ?_, fun _ => Operand.reads_typed hplain.1 hsound htest,
    hcondition.advances.sound, hcode⟩
  rw [Instruction.opening, Compiler.run_bind_of_ok htest]
  rfl

theorem Instruction.reads_of_compile_contract {address : Operand} {queries : List MemberQuery}
    (hplain : Plain (contract address queries body).declares) (hsound : names.Sound)
    (hcompile : ((contract address queries body).compile library place).run names =
      .ok (compiled, after)) :
    ∃ target reads code declared inner,
      compiled = .contract target reads code ∧ place ≠ none ∧
      ((contract address queries body).opening library place).run names = .ok ((), declared) ∧
      (∀ start : RunState σ, (do
        let target ← ContractFilter.target (← target.evaluate)
        reads.forM (ContractFilter.read target)).Reads settings start place names declared) ∧
      declared.Sound ∧ (compileAll library place body).run declared = .ok (code, inner) := by
  rw [Instruction.declares, plain_append, plain_append] at hplain
  obtain ⟨haddressNames, hqueryNames, _⟩ := hplain
  have hplace := Compiler.contains_of_requirePlace_bind_ok
    (by rwa [Instruction.compile] at hcompile)
  have hinside : place ≠ none := by
    rintro rfl
    cases hplace
  obtain ⟨target, inputs, reads, code, second, third, declared, inner, htarget, hinputs, hreads,
    hcode, rfl, rfl⟩ := Instruction.of_compile_contract_ok hcompile
  have hentered : (modify Names.enter : Compiler Unit).run third = .ok ((), third.enter) := rfl
  have haddress : Evaluates settings names second _ target.evaluate (address.interpret library) :=
    Operand.evaluates_typed haddressNames hsound htarget
  have hcompiled :=
    MemberQuery.compiled_enter settings hqueryNames haddress.advances.sound hinputs hreads
  refine ⟨target, reads, code, declared, inner, rfl, hinside, ?_, fun _ => ?_,
    hcompiled.advances_reads.sound, hcode⟩
  · rw [Instruction.opening, Compiler.run_bind_of_ok htarget, Compiler.run_bind_of_ok hinputs,
      Compiler.run_bind_of_ok hentered, Compiler.run_bind_of_ok hreads]
    rfl
  · exact MemberQuery.reads_opening hinside haddress
      (Operand.reads_typed haddressNames hsound htarget) hcompiled

end

end ChainExtract.Plan
