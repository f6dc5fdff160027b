import ChainExtract.Proofs.BlockRange.Entries
import ChainExtract.Proofs.Scoping.Contracts
import ChainExtract.Proofs.Scoping.LogEntries

/-! # Compiled plans

Instruction by instruction a program does what its plan does in the frames, and
so do whole programs: they make the same requests, export and report the same.
-/

namespace ChainExtract.Plan

variable {σ : Type} {settings : Settings σ}

mutual

/-- The variables that an instruction may declare. -/
def Instruction.declares : Instruction → List String
  | .blocks first last body =>
    first.declares ++ (Operand.declares? last ++ Instruction.declaresAll body)
  | .transactions senders recipients body =>
    Operand.declares? senders ++ (Operand.declares? recipients ++ Instruction.declaresAll body)
  | .logEntries _ parameters emitters body =>
    Operand.declares? emitters ++ (parameters.map (·.name) ++ Instruction.declaresAll body)
  | .when condition body => condition.declares ++ Instruction.declaresAll body
  | .contract address queries body =>
    address.declares ++ (MemberQuery.declaresAll queries ++ Instruction.declaresAll body)
  | .assign target value => value.declares ++ [target]
  | .call _ arguments result => Operand.declaresAll arguments ++ result.toList
  | .exportRow _ columns => Operand.declaresCells columns
  | .exportLine parts => Operand.declaresAll parts
  | .exportEvent trace event attributes =>
    trace.declares ++ (event.declares ++ Attribute.declaresAll attributes)

def Instruction.declaresAll : List Instruction → List String
  | [] => []
  | instruction :: rest => Instruction.declares instruction ++ Instruction.declaresAll rest

end

def declares (plan : Plan) : List String := Instruction.declaresAll plan.instructions

section

variable {library : Library} {names first second inner : Names} {body : Run σ Unit}
variable {framedBody : Run (Scoped σ) Unit}

theorem evaluates_blocks {lower : ChainExtract.Operand} {lower' : Operand}
    {upper : Option ChainExtract.Operand} {upper' : Option Operand}
    (hlower : Evaluates settings names first (fun value result => result.1 = value) lower.evaluate
      (lower'.interpret library))
    (hupper : Evaluates settings first second Eq (ChainExtract.Operand.evaluate? upper)
      (Operand.interpret? library upper'))
    (hbody : Evaluates settings second.enter inner Eq body framedBody) :
    Evaluates settings names inner.leave Eq
      (do
        let start ← Run.ofExcept (BlockRange.bound (← lower.evaluate))
        let stop ← Run.ofExcept (BlockRange.bound? (← ChainExtract.Operand.evaluate? upper))
        BlockRange.visitAll body start stop)
      (do
        let start ← Run.ofExcept (BlockRange.bound (← lower'.interpret library).1)
        let stop ← Run.ofExcept (BlockRange.bound? (← Operand.interpret? library upper'))
        BlockRange.visitAll (Run.within [] framedBody) start stop) := by
  have hvisits (start : Int) (stop : Option Int) : Evaluates settings second inner.leave Eq
      (BlockRange.visitAll body start stop)
      (BlockRange.visitAll (Run.within [] framedBody) start stop) :=
    .of_filter hupper.advances.sound hbody fun _ hsteady =>
      BlockRange.steady_visitAll hsteady start stop
  have hleave := (hvisits 0 none).advances
  apply hlower.bind (hupper.advances.trans hleave)
  rintro _ ⟨value, type⟩ rfl
  refine (Evaluates.of_steady hlower.advances.sound fun _ => Run.steady_ofExcept _).bind
    (hupper.advances.trans hleave) ?_
  rintro start _ rfl
  apply hupper.bind hleave
  rintro bound _ rfl
  refine (Evaluates.of_steady hupper.advances.sound fun _ => Run.steady_ofExcept _).bind hleave ?_
  rintro stop _ rfl
  exact hvisits start stop

theorem evaluates_transactions {senders recipients : Run σ AddressSet}
    {senders' recipients' : Run (Scoped σ) AddressSet}
    (hsenders : Evaluates settings names first Eq senders senders')
    (hrecipients : Evaluates settings first second Eq recipients recipients')
    (hbody : Evaluates settings second.enter inner Eq body framedBody) :
    Evaluates settings names inner.leave Eq
      (do TransactionFilter.run (← senders) (← recipients) body)
      (do TransactionFilter.run (← senders') (← recipients') (Run.within [] framedBody)) := by
  have hvisits (senders recipients : AddressSet) : Evaluates settings second inner.leave Eq
      (TransactionFilter.run senders recipients body)
      (TransactionFilter.run senders recipients (Run.within [] framedBody)) :=
    .of_filter hrecipients.advances.sound hbody fun _ hsteady =>
      TransactionFilter.steady_run hsteady senders recipients
  have hleave := (hvisits ⟨[]⟩ ⟨[]⟩).advances
  apply hsenders.bind (hrecipients.advances.trans hleave)
  rintro senders _ rfl
  apply hrecipients.bind hleave
  rintro recipients _ rfl
  exact hvisits senders recipients

theorem evaluates_logEntries {emitters : Run σ AddressSet} {emitters' : Run (Scoped σ) AddressSet}
    {event stored : EventDecl} (hemitters : Evaluates settings names first Eq emitters emitters')
    (hvars : ∀ var ∈ eventVars event, '#' ∉ var.1.toList) (hshape : event.SameShape stored)
    (hstored : stored.parameters.map (·.name) = (first.enter.declareAll (eventVars event)).1)
    (hbody : Evaluates settings (first.enter.declareAll (eventVars event)).2 inner Eq body
      framedBody) :
    Evaluates settings names inner.leave Eq
      (do LogEntryFilter.run stored (← emitters) body)
      (do LogEntryFilter.visitMatching event (← emitters') (Parameter.visit event framedBody)) := by
  have hsound := hemitters.advances.sound
  have hdeclared := hsound.enter.advances_declareAll hvars
  have hvisits (emitters : AddressSet) : Evaluates settings first inner.leave Eq
      (LogEntryFilter.run stored emitters body)
      (LogEntryFilter.visitMatching event emitters (Parameter.visit event framedBody)) := by
    refine .of_body (hdeclared.trans hbody.advances) fun pins hpins => ?_
    exact LogEntryFilter.steady_visitMatching hshape.name.symm hshape.topic_eq.symm
      (LogEntryFilter.steady_visit hsound hvars hshape hstored hbody hpins) emitters
  refine hemitters.bind (hvisits ⟨[]⟩).advances ?_
  rintro emitters _ rfl
  exact hvisits emitters

theorem evaluates_when {condition : ChainExtract.Operand} {condition' : Operand}
    (hcondition : Evaluates settings names first (fun value result => result.1 = value)
      condition.evaluate (condition'.interpret library))
    (hbody : Evaluates settings first.enter inner Eq body framedBody) :
    Evaluates settings names inner.leave Eq
      (do runWhen (← condition.evaluate) body)
      (do runWhen (← condition'.interpret library).1 (Run.within [] framedBody)) := by
  have hruns (value : Value) : Evaluates settings first inner.leave Eq (runWhen value body)
      (runWhen value (Run.within [] framedBody)) :=
    .of_filter hcondition.advances.sound hbody fun _ hsteady => steady_runWhen value hsteady
  apply hcondition.bind (hruns (.bool true)).advances
  rintro _ ⟨value, type⟩ rfl
  exact hruns value

end

section

variable {library : Library} {place : Option Scope} {names after : Names}
variable {compiled : ChainExtract.Instruction Empty} {body : List Instruction}

/-! What the compilation of an instruction has done, step by step. -/

-- As for operands, the equations of `compile` are generated once.
attribute [local simp] Instruction.compile

theorem Instruction.of_compile_blocks_ok {first : Operand} {last : Option Operand}
    (hcompile : ((blocks first last body).compile library place).run names =
      .ok (compiled, after)) :
    ∃ lower upper code second third inner,
      (Operand.compileTyped library place "block range start" .int first).run names =
        .ok (lower, second) ∧
      (Operand.compile? (Operand.compileTyped library place "block range end" .int) last).run
        second = .ok (upper, third) ∧
      (compileAll library (some .block) body).run third.enter = .ok (code, inner) ∧
      compiled = .blocks lower upper code ∧ after = inner.leave := by
  rw [Instruction.compile] at hcompile
  replace hcompile := Compiler.of_requirePlace_bind_ok hcompile
  obtain ⟨lower, second, hlower, hcompile⟩ := Compiler.of_bind_ok hcompile
  obtain ⟨upper, third, hupper, hcompile⟩ := Compiler.of_bind_ok hcompile
  obtain ⟨code, fourth, hnested, hreturn⟩ := Compiler.of_bind_ok hcompile
  obtain ⟨rfl, rfl⟩ := Compiler.of_pure_ok hreturn
  obtain ⟨inner, hcode, rfl⟩ := Compiler.of_nested_ok hnested
  exact ⟨lower, upper, code, second, third, inner, hlower, hupper, hcode, rfl, rfl⟩

theorem Instruction.of_compile_transactions_ok {senders recipients : Option Operand}
    (hcompile : ((transactions senders recipients body).compile library place).run names =
      .ok (compiled, after)) :
    ∃ senders? recipients? code second third inner,
      (Operand.compile? (Operand.compileAddresses library place "senders") senders).run names =
        .ok (senders?, second) ∧
      (Operand.compile? (Operand.compileAddresses library place "recipients") recipients).run
        second = .ok (recipients?, third) ∧
      (compileAll library (some .transaction) body).run third.enter = .ok (code, inner) ∧
      compiled = .transactions senders? recipients? code ∧ after = inner.leave := by
  rw [Instruction.compile] at hcompile
  replace hcompile := Compiler.of_requirePlace_bind_ok hcompile
  obtain ⟨senders?, second, hsenders, hcompile⟩ := Compiler.of_bind_ok hcompile
  obtain ⟨recipients?, third, hrecipients, hcompile⟩ := Compiler.of_bind_ok hcompile
  obtain ⟨code, fourth, hnested, hreturn⟩ := Compiler.of_bind_ok hcompile
  obtain ⟨rfl, rfl⟩ := Compiler.of_pure_ok hreturn
  obtain ⟨inner, hcode, rfl⟩ := Compiler.of_nested_ok hnested
  exact ⟨senders?, recipients?, code, second, third, inner, hsenders, hrecipients, hcode, rfl, rfl⟩

theorem Instruction.of_compile_logEntries_ok {event : String} {parameters : List Parameter}
    {emitters : Option Operand}
    (hcompile : ((logEntries event parameters emitters body).compile library place).run names =
      .ok (compiled, after)) :
    ∃ emitters? stored code second third inner,
      (Operand.compile? (Operand.compileAddresses library place "log entry addresses")
        emitters).run names = .ok (emitters?, second) ∧
      (Parameter.compileAll parameters).run second.enter = .ok (stored, third) ∧
      (compileAll library (some .logEntry) body).run third = .ok (code, inner) ∧
      compiled = .logEntries ⟨event, stored⟩ emitters? code ∧ after = inner.leave := by
  rw [Instruction.compile] at hcompile
  replace hcompile := Compiler.of_requirePlace_bind_ok hcompile
  obtain ⟨emitters?, second, hemitters, hnested⟩ := Compiler.of_bind_ok hcompile
  obtain ⟨inner, hinside, rfl⟩ := Compiler.of_nested_ok hnested
  obtain ⟨stored, third, hparameters, hinside⟩ := Compiler.of_bind_ok hinside
  obtain ⟨code, fourth, hcode, hreturn⟩ := Compiler.of_bind_ok hinside
  obtain ⟨rfl, rfl⟩ := Compiler.of_pure_ok hreturn
  exact ⟨emitters?, stored, code, second, third, _, hemitters, hparameters, hcode, rfl, rfl⟩

theorem Instruction.of_compile_when_ok {condition : Operand}
    (hcompile : ((when condition body).compile library place).run names = .ok (compiled, after)) :
    ∃ test code second inner,
      (Operand.compileTyped library place "condition" .bool condition).run names =
        .ok (test, second) ∧
      (compileAll library place body).run second.enter = .ok (code, inner) ∧
      compiled = .when test code ∧ after = inner.leave := by
  rw [Instruction.compile] at hcompile
  obtain ⟨test, second, htest, hcompile⟩ := Compiler.of_bind_ok hcompile
  obtain ⟨code, third, hnested, hreturn⟩ := Compiler.of_bind_ok hcompile
  obtain ⟨rfl, rfl⟩ := Compiler.of_pure_ok hreturn
  obtain ⟨inner, hcode, rfl⟩ := Compiler.of_nested_ok hnested
  exact ⟨test, code, second, inner, htest, hcode, rfl, rfl⟩

theorem Instruction.of_compile_contract_ok {address : Operand} {queries : List MemberQuery}
    (hcompile : ((contract address queries body).compile library place).run names =
      .ok (compiled, after)) :
    ∃ target inputs reads code second third fourth inner,
      (Operand.compileTyped library place "smart contract" .address address).run names =
        .ok (target, second) ∧
      (MemberQuery.compileInputs library place queries).run second = .ok (inputs, third) ∧
      (MemberQuery.compileAll queries inputs).run third.enter = .ok (reads, fourth) ∧
      (compileAll library place body).run fourth = .ok (code, inner) ∧
      compiled = .contract target reads code ∧ after = inner.leave := by
  rw [Instruction.compile] at hcompile
  replace hcompile := Compiler.of_requirePlace_bind_ok hcompile
  obtain ⟨target, second, htarget, hcompile⟩ := Compiler.of_bind_ok hcompile
  obtain ⟨inputs, third, hinputs, hnested⟩ := Compiler.of_bind_ok hcompile
  obtain ⟨inner, hinside, rfl⟩ := Compiler.of_nested_ok hnested
  obtain ⟨reads, fourth, hreads, hinside⟩ := Compiler.of_bind_ok hinside
  obtain ⟨code, fifth, hcode, hreturn⟩ := Compiler.of_bind_ok hinside
  obtain ⟨rfl, rfl⟩ := Compiler.of_pure_ok hreturn
  exact ⟨target, inputs, reads, code, second, third, fourth, _, htarget, hinputs, hreads, hcode,
    rfl, rfl⟩

theorem Instruction.of_compile_assign_ok {target : String} {value : Operand}
    (hcompile : ((assign target value).compile library place).run names = .ok (compiled, after)) :
    ∃ source type second,
      (value.compile library place).run names = .ok ((source, type), second) ∧
      compiled = .assign (second.assign target type).1 source ∧
      after = (second.assign target type).2 := by
  rw [Instruction.compile] at hcompile
  obtain ⟨⟨source, type⟩, second, hsource, hcompile⟩ := Compiler.of_bind_ok hcompile
  obtain ⟨storage, third, hassign, hreturn⟩ := Compiler.of_bind_ok hcompile
  obtain ⟨rfl, rfl⟩ := Compiler.of_pure_ok hreturn
  obtain ⟨rfl, rfl⟩ := Compiler.of_assign_ok hassign
  exact ⟨source, type, second, hsource, rfl, rfl⟩

theorem Instruction.of_compile_call_ok {method : String} {arguments : List Operand}
    {result : Option String}
    (hcompile : ((call method arguments result).compile library place).run names =
      .ok (compiled, after)) :
    ∃ operands types second found storage?,
      (Operand.compileAll library place arguments).run names = .ok ((operands, types), second) ∧
      (resolveCall library method types result).run second = .ok ((found, storage?), after) ∧
      compiled = .call found operands storage? := by
  rw [Instruction.compile] at hcompile
  obtain ⟨⟨operands, types⟩, second, harguments, hcompile⟩ := Compiler.of_bind_ok hcompile
  obtain ⟨⟨found, storage?⟩, third, hresolve, hreturn⟩ := Compiler.of_bind_ok hcompile
  obtain ⟨rfl, rfl⟩ := Compiler.of_pure_ok hreturn
  exact ⟨operands, types, second, found, storage?, harguments, hresolve, rfl⟩

theorem Instruction.of_compile_exportRow_ok {table : String} {columns : List (String × Operand)}
    (hcompile : ((exportRow table columns).compile library place).run names =
      .ok (compiled, after)) :
    ∃ operands, (Operand.compileNamed library place columns).run names = .ok (operands, after) ∧
      compiled = .exportRow table operands := by
  rw [Instruction.compile] at hcompile
  obtain ⟨operands, second, hcolumns, hreturn⟩ := Compiler.of_bind_ok hcompile
  obtain ⟨rfl, rfl⟩ := Compiler.of_pure_ok hreturn
  exact ⟨operands, hcolumns, rfl⟩

theorem Instruction.of_compile_exportLine_ok {parts : List Operand}
    (hcompile : ((exportLine parts).compile library place).run names = .ok (compiled, after)) :
    ∃ operands types,
      (Operand.compileAll library place parts).run names = .ok ((operands, types), after) ∧
      compiled = .exportLine operands := by
  rw [Instruction.compile] at hcompile
  obtain ⟨⟨operands, types⟩, second, hparts, hreturn⟩ := Compiler.of_bind_ok hcompile
  obtain ⟨rfl, rfl⟩ := Compiler.of_pure_ok hreturn
  exact ⟨operands, types, hparts, rfl⟩

theorem Instruction.of_compile_exportEvent_ok {trace event : Operand} {attributes : List Attribute}
    (hcompile : ((exportEvent trace event attributes).compile library place).run names =
      .ok (compiled, after)) :
    ∃ first firstType second next nextType third operands,
      (trace.compile library place).run names = .ok ((first, firstType), second) ∧
      (event.compile library place).run second = .ok ((next, nextType), third) ∧
      (Attribute.compileAll library place attributes).run third = .ok (operands, after) ∧
      compiled = .exportEvent first next operands := by
  rw [Instruction.compile] at hcompile
  obtain ⟨⟨first, firstType⟩, second, hfirst, hcompile⟩ := Compiler.of_bind_ok hcompile
  obtain ⟨⟨next, nextType⟩, third, hnext, hcompile⟩ := Compiler.of_bind_ok hcompile
  obtain ⟨operands, fourth, hoperands, hreturn⟩ := Compiler.of_bind_ok hcompile
  obtain ⟨rfl, rfl⟩ := Compiler.of_pure_ok hreturn
  exact ⟨first, firstType, second, next, nextType, third, operands, hfirst, hnext, hoperands, rfl⟩

theorem Instruction.of_compileAll_cons_ok {instruction : Instruction}
    {code : List (ChainExtract.Instruction Empty)}
    (hcompile : (compileAll library place (instruction :: body)).run names = .ok (code, after)) :
    ∃ compiled second rest,
      (instruction.compile library place).run names = .ok (compiled, second) ∧
      (compileAll library place body).run second = .ok (rest, after) ∧ code = compiled :: rest := by
  rw [compileAll] at hcompile
  obtain ⟨compiled, second, hcompiled, hcompile⟩ := Compiler.of_bind_ok hcompile
  obtain ⟨rest, third, hrest, hreturn⟩ := Compiler.of_bind_ok hcompile
  obtain ⟨rfl, rfl⟩ := Compiler.of_pure_ok hreturn
  exact ⟨compiled, second, rest, hcompiled, hrest, rfl⟩

end

section

/-- Wherever an instruction compiles, its compiled form does what it does in the frames. -/
def Instruction.Realized (settings : Settings σ) (library : Library) (further : Empty → Run σ Unit)
    (instruction : Instruction) : Prop :=
  ∀ ⦃place : Option Scope⦄ ⦃names after : Names⦄ ⦃compiled : ChainExtract.Instruction Empty⦄,
    Plain instruction.declares → names.Sound →
    (Instruction.compile library place instruction).run names = .ok (compiled, after) →
    Evaluates settings names after Eq (compiled.execute further) (instruction.interpret library)

/-- Wherever a body compiles, its compiled form does what it does in the frames. -/
def Instruction.AllRealized (settings : Settings σ) (library : Library)
    (further : Empty → Run σ Unit) (body : List Instruction) : Prop :=
  ∀ ⦃place : Option Scope⦄ ⦃names after : Names⦄ ⦃compiled : List (ChainExtract.Instruction Empty)⦄,
    Plain (Instruction.declaresAll body) → names.Sound →
    (Instruction.compileAll library place body).run names = .ok (compiled, after) →
    Evaluates settings names after Eq (ChainExtract.Instruction.executeAll further compiled)
      (Instruction.interpretAll library body)

variable {library : Library} {further : Empty → Run σ Unit} {body : List Instruction}

-- So are those of the functions that the lemmas below unfold.
attribute [local simp] Instruction.declares Instruction.interpret ChainExtract.Instruction.execute

theorem Instruction.realized_blocks (first : Operand) (last : Option Operand)
    (hrealized : AllRealized settings library further body) :
    Realized settings library further (.blocks first last body) := by
  intro place names after compiled hplain hsound hcompile
  rw [declares, plain_append, plain_append] at hplain
  obtain ⟨hfirstNames, hlastNames, hbodyNames⟩ := hplain
  obtain ⟨lower, upper, code, second, third, inner, hlower, hupper, hcode, rfl, rfl⟩ :=
    of_compile_blocks_ok hcompile
  have hfirst : Evaluates settings names second _ lower.evaluate (first.interpret library) :=
    Operand.evaluates_typed hfirstNames hsound hlower
  have hlast : Evaluates settings second third Eq (ChainExtract.Operand.evaluate? upper)
      (Operand.interpret? library last) :=
    Operand.evaluates_typed? hlastNames hfirst.advances.sound hupper
  have hbody := hrealized hbodyNames hlast.advances.sound.enter hcode
  rw [ChainExtract.Instruction.execute, interpret]
  exact evaluates_blocks hfirst hlast hbody

theorem Instruction.realized_transactions (senders recipients : Option Operand)
    (hrealized : AllRealized settings library further body) :
    Realized settings library further (.transactions senders recipients body) := by
  intro place names after compiled hplain hsound hcompile
  rw [declares, plain_append, plain_append] at hplain
  obtain ⟨hsenderNames, hrecipientNames, hbodyNames⟩ := hplain
  obtain ⟨senders?, recipients?, code, second, third, inner, hfrom, hto, hcode, rfl, rfl⟩ :=
    of_compile_transactions_ok hcompile
  have hsenders : Evaluates settings names second Eq
      (evaluateAddresses "transaction senders" senders?)
      (Operand.interpretAddresses library "transaction senders" senders) :=
    Operand.evaluates_interpretAddresses _ _ hsenderNames hsound hfrom
  have hrecipients : Evaluates settings second third Eq
      (evaluateAddresses "transaction recipients" recipients?)
      (Operand.interpretAddresses library "transaction recipients" recipients) :=
    Operand.evaluates_interpretAddresses _ _ hrecipientNames hsenders.advances.sound hto
  have hbody := hrealized hbodyNames hrecipients.advances.sound.enter hcode
  rw [ChainExtract.Instruction.execute, interpret]
  exact evaluates_transactions hsenders hrecipients hbody

theorem Instruction.realized_logEntries (event : String) (parameters : List Parameter)
    (emitters : Option Operand) (hrealized : AllRealized settings library further body) :
    Realized settings library further (.logEntries event parameters emitters body) := by
  intro place names after compiled hplain hsound hcompile
  rw [declares, plain_append, plain_append] at hplain
  obtain ⟨hemitterNames, hparameterNames, hbodyNames⟩ := hplain
  obtain ⟨emitters?, stored, code, second, third, inner, hcompiled, hparameters, hcode, rfl, rfl⟩ :=
    of_compile_logEntries_ok hcompile
  obtain ⟨declared, hinterpret, hnames, hshape, hpair⟩ := Parameter.of_compileAll_ok hparameters
  obtain ⟨hstored, rfl⟩ := Prod.mk.inj hpair
  have hemitters : Evaluates settings names second Eq
      (evaluateAddresses "log entry addresses" emitters?)
      (Operand.interpretAddresses library "log entry addresses" emitters) :=
    Operand.evaluates_interpretAddresses _ _ hemitterNames hsound hcompiled
  have hvars : ∀ var ∈ eventVars ⟨event, declared⟩, '#' ∉ var.1.toList :=
    plain_eventVars (hnames ▸ hparameterNames)
  have hdeclared := hemitters.advances.sound.enter.advances_declareAll hvars
  have hbody := hrealized hbodyNames hdeclared.sound hcode
  rw [ChainExtract.Instruction.execute, interpret, hinterpret]
  exact evaluates_logEntries hemitters hvars ⟨rfl, hshape⟩ hstored hbody

theorem Instruction.realized_when (condition : Operand)
    (hrealized : AllRealized settings library further body) :
    Realized settings library further (.when condition body) := by
  intro place names after compiled hplain hsound hcompile
  rw [declares, plain_append] at hplain
  obtain ⟨hconditionNames, hbodyNames⟩ := hplain
  obtain ⟨test, code, second, inner, htest, hcode, rfl, rfl⟩ := of_compile_when_ok hcompile
  have hcondition : Evaluates settings names second _ test.evaluate (condition.interpret library) :=
    Operand.evaluates_typed hconditionNames hsound htest
  have hbody := hrealized hbodyNames hcondition.advances.sound.enter hcode
  rw [ChainExtract.Instruction.execute, interpret]
  exact evaluates_when hcondition hbody

theorem Instruction.realized_contract (address : Operand) (queries : List MemberQuery)
    (hrealized : AllRealized settings library further body) :
    Realized settings library further (.contract address queries body) := by
  intro place names after compiled hplain hsound hcompile
  rw [declares, plain_append, plain_append] at hplain
  obtain ⟨haddressNames, hqueryNames, hbodyNames⟩ := hplain
  obtain ⟨contract, inputs, reads, code, second, third, fourth, inner, hcontract, hinputs, hreads,
    hcode, rfl, rfl⟩ := of_compile_contract_ok hcompile
  have haddress : Evaluates settings names second _ contract.evaluate (address.interpret library) :=
    Operand.evaluates_typed haddressNames hsound hcontract
  have hcompiled :=
    MemberQuery.compiled_enter settings hqueryNames haddress.advances.sound hinputs hreads
  have hbody := hrealized hbodyNames hcompiled.advances_reads.sound hcode
  rw [ChainExtract.Instruction.execute, interpret]
  exact MemberQuery.evaluates_contract hsound haddress hcompiled hbody

theorem Instruction.realized_assign (target : String) (value : Operand) :
    Realized settings library further (.assign target value) := by
  intro place names after compiled hplain hsound hcompile
  rw [declares, plain_append] at hplain
  obtain ⟨hvalueNames, htargetName⟩ := hplain
  obtain ⟨source, type, second, hsource, rfl, rfl⟩ := of_compile_assign_ok hcompile
  have hvalue : Evaluates settings names second _ source.evaluate (value.interpret library) :=
    Operand.evaluates_interpret library place value hvalueNames hsound hsource
  have hname : '#' ∉ target.toList := htargetName target (List.mem_singleton_self target)
  rw [ChainExtract.Instruction.execute, interpret]
  apply hvalue.bind (hvalue.advances.sound.advances_assign hname type)
  rintro result _ rfl
  exact .assign hvalue.advances.sound hname type result

theorem Instruction.realized_call (method : String) (arguments : List Operand)
    (result : Option String) :
    Realized settings library further (.call method arguments result) := by
  intro place names after compiled hplain hsound hcompile
  rw [declares, plain_append] at hplain
  obtain ⟨hargumentNames, hresultNames⟩ := hplain
  obtain ⟨operands, types, second, found, storage?, harguments, hresolve, rfl⟩ :=
    of_compile_call_ok hcompile
  have hvalues : Evaluates settings names second _ _ _ :=
    Operand.evaluatesAll_interpretAll library place arguments hargumentNames hsound harguments
  have hinvoke (values : List Value) : Evaluates settings second after _ _ _ :=
    evaluates_invoke library hvalues.advances.sound hresultNames hresolve values
  rw [ChainExtract.Instruction.execute, interpret]
  apply hvalues.bind (hinvoke []).advances
  rintro values _ rfl
  exact (hinvoke values).map fun _ _ _ => rfl

theorem Instruction.realized_exportRow (table : String) (columns : List (String × Operand)) :
    Realized settings library further (.exportRow table columns) := by
  intro place names after compiled hplain hsound hcompile
  obtain ⟨operands, hcolumns, rfl⟩ := of_compile_exportRow_ok hcompile
  have hcells : Evaluates settings names after Eq _ _ :=
    Operand.evaluates_interpretCells columns hplain hsound hcolumns
  rw [ChainExtract.Instruction.execute, interpret]
  apply hcells.bind (.refl hcells.advances.sound)
  rintro cells _ rfl
  exact .of_steady hcells.advances.sound fun _ => Run.steady_emit _

theorem Instruction.realized_exportLine (parts : List Operand) :
    Realized settings library further (.exportLine parts) := by
  intro place names after compiled hplain hsound hcompile
  obtain ⟨operands, types, hparts, rfl⟩ := of_compile_exportLine_ok hcompile
  have hvalues : Evaluates settings names after _ _ _ :=
    Operand.evaluatesAll_interpretAll library place parts hplain hsound hparts
  rw [ChainExtract.Instruction.execute, interpret]
  apply hvalues.bind (.refl hvalues.advances.sound)
  rintro values _ rfl
  exact .of_steady hvalues.advances.sound fun _ => Run.steady_emit _

theorem Instruction.realized_exportEvent (trace event : Operand) (attributes : List Attribute) :
    Realized settings library further (.exportEvent trace event attributes) := by
  intro place names after compiled hplain hsound hcompile
  rw [declares, plain_append, plain_append] at hplain
  obtain ⟨htraceNames, heventNames, hattributeNames⟩ := hplain
  obtain ⟨first, firstType, second, next, nextType, third, operands, hfirst, hnext, hoperands,
    rfl⟩ := of_compile_exportEvent_ok hcompile
  have htrace : Evaluates settings names second _ _ _ :=
    Operand.evaluates_interpret library place trace htraceNames hsound hfirst
  have hevent : Evaluates settings second third _ _ _ :=
    Operand.evaluates_interpret library place event heventNames htrace.advances.sound hnext
  have hattributes : Evaluates settings third after Eq _ _ :=
    Attribute.evaluates_interpretAll attributes hattributeNames hevent.advances.sound hoperands
  rw [ChainExtract.Instruction.execute, interpret]
  apply htrace.bind (hevent.advances.trans hattributes.advances)
  rintro first _ rfl
  apply hevent.bind hattributes.advances
  rintro next _ rfl
  apply hattributes.bind (.refl hattributes.advances.sound)
  rintro attributes _ rfl
  exact .of_steady hattributes.advances.sound fun _ => Run.steady_emit _

theorem Instruction.allRealized_nil : AllRealized settings library further [] := by
  intro place names after compiled _ hsound hcompile
  obtain ⟨rfl, rfl⟩ := Compiler.of_pure_ok hcompile
  rw [ChainExtract.Instruction.executeAll, interpretAll]
  exact .pure hsound rfl

theorem Instruction.allRealized_cons {instruction : Instruction}
    (hrealized : Realized settings library further instruction)
    (hrest : AllRealized settings library further body) :
    AllRealized settings library further (instruction :: body) := by
  intro place names after compiled hplain hsound hcompile
  rw [declaresAll, plain_append] at hplain
  obtain ⟨first, middle, others, hfirst, hothers, rfl⟩ := of_compileAll_cons_ok hcompile
  have hstep := hrealized hplain.1 hsound hfirst
  have hlater := hrest hplain.2 hstep.advances.sound hothers
  rw [ChainExtract.Instruction.executeAll, interpretAll]
  exact hstep.bind hlater.advances fun _ _ _ => hlater

end

section

variable (library : Library) (further : Empty → Run σ Unit)

mutual

/-- An instruction that compiles does what its compiled form does. -/
theorem Instruction.evaluates_interpret : ∀ instruction : Instruction,
    Realized settings library further instruction
  | .blocks first last body => realized_blocks first last (evaluatesAll_interpretAll body)
  | .transactions senders recipients body =>
      realized_transactions senders recipients (evaluatesAll_interpretAll body)
  | .logEntries event parameters emitters body =>
      realized_logEntries event parameters emitters (evaluatesAll_interpretAll body)
  | .when condition body => realized_when condition (evaluatesAll_interpretAll body)
  | .contract address queries body =>
      realized_contract address queries (evaluatesAll_interpretAll body)
  | .assign target value => realized_assign target value
  | .call method arguments result => realized_call method arguments result
  | .exportRow table columns => realized_exportRow table columns
  | .exportLine parts => realized_exportLine parts
  | .exportEvent trace event attributes => realized_exportEvent trace event attributes

theorem Instruction.evaluatesAll_interpretAll : ∀ body : List Instruction,
    AllRealized settings library further body
  | [] => allRealized_nil
  | instruction :: rest =>
      allRealized_cons (evaluates_interpret instruction) (evaluatesAll_interpretAll rest)

end

end

theorem steady_finish {F : Store → Frames → Prop} :
    (Program.finish : Run σ Unit).Steady settings F Eq Program.finish := by
  apply (Run.steady_finish _).bind
  rintro (_ | error) _ rfl
  · exact Run.steady_close
  · exact (Run.steady_report _ error).bind fun _ _ _ => Run.steady_close

theorem simulates_complete {F G H : Store → Frames → Prop} {x : Run σ Unit}
    {y : Run (Scoped σ) Unit}
    (hxy : x.Simulates settings F G H Eq y) :
    (Program.complete x).Simulates settings F (fun _ _ => True) (fun _ _ => True) Eq
      (Program.complete y) := by
  have hends : x.Simulates settings F (fun _ _ => True) (fun _ _ => True) Eq y :=
    hxy.weaken (fun _ _ h => h) (fun _ _ _ => trivial) fun _ _ _ => trivial
  refine (hends.attempt fun _ _ h => h).bind ?_
  rintro outcome _ rfl
  split
  · exact steady_finish
  · exact steady_finish
  · exact (Run.steady_report _ _).bind fun _ _ _ => steady_finish

/-- The names that are left when a plan has been compiled. -/
theorem exists_run_of_compile {library : Library} {plan : Plan} {program : Program Empty}
    (hcompile : plan.compile library = .ok program) :
    ∃ names, (Instruction.compileAll library none plan.instructions).run {} =
      .ok (program, names) := by
  unfold compile at hcompile
  rw [StateT.run'_eq] at hcompile
  cases hrun : (Instruction.compileAll library none plan.instructions).run {} with
  | error error =>
      rw [hrun] at hcompile
      cases hcompile
  | ok pair =>
      rw [hrun] at hcompile
      cases hcompile
      exact ⟨pair.2, rfl⟩

/-- Compilation keeps the scopes of variables: a program ends as its plan does in the
frames, with the same requests, exports and reports on the way. -/
theorem alike_interpret_of_compile (library : Library) {plan : Plan} {program : Program Empty}
    (hcompile : plan.compile library = .ok program) (hplain : Plain plan.declares)
    (settings : Settings σ) (further : Empty → Run σ Unit) (state : RunState σ) :
    Outcome.Alike Eq (fun _ _ => True) (fun _ _ => True)
      ((Program.run further program).run settings state)
      ((plan.interpret library).run settings.scoped state.scoped) := by
  obtain ⟨names, hnames⟩ := exists_run_of_compile hcompile
  have hevaluates : Evaluates settings {} names Eq
      (ChainExtract.Instruction.executeAll further program)
      (Instruction.interpretAll library plan.instructions) :=
    Instruction.evaluatesAll_interpretAll library further plan.instructions hplain
      Names.sound_empty hnames
  -- outside of all bodies no variable is pinned
  have hsimulates := simulates_complete (hevaluates.simulates [] (by simp))
  have hstart : Holding {} [] state.store [[]] :=
    ⟨.cons (frameAgrees_nil state.store) .nil, by simp⟩
  exact hsimulates state state.scoped ⟨⟨rfl, rfl, rfl, rfl, rfl, rfl⟩, hstart⟩

/-- A plan that assigns a truth value where an integer of the same name is visible. -/
def shadowingPlan : Plan where
  outputs := []
  instructions :=
    [.assign "x" (.literal (.scalar (.integer 1))),
      .blocks (.literal (.scalar (.integer 1))) (some (.literal (.scalar (.integer 2))))
        [.exportLine [.stored "x"], .assign "x" (.literal (.scalar (.bool true))),
          .exportLine [.stored "x"]],
      .exportLine [.stored "x"]]

/-- Its program, in which the second variable has a storage name of its own. -/
def shadowingProgram : Program Empty :=
  [.assign "x" (.literal (.int 1)),
    .blocks (.literal (.int 1)) (some (.literal (.int 2)))
      [.exportLine [.stored "x"], .assign "x#1" (.literal (.bool true)),
        .exportLine [.stored "x#1"]],
    .exportLine [.stored "x"]]

theorem alike_interpret_of_compile_shadowed :
    shadowingPlan.compile .empty = .ok shadowingProgram ∧ Plain shadowingPlan.declares ∧
      ∃ after framed,
        (Program.run Empty.elim shadowingProgram).run (BlockRange.forkingSettings 39 0 [])
          BlockRange.forkingStart = .ok () after ∧
        (shadowingPlan.interpret .empty).run (BlockRange.forkingSettings 39 0 []).scoped
          BlockRange.forkingStart.scoped = .ok () framed ∧
        SameView after framed := by
  have hname : Names.storageName "x" 1 = "x#1" := by decide +kernel
  have hcompile : shadowingPlan.compile .empty = .ok shadowingProgram := by
    rw [shadowingProgram, ← hname]
    rfl
  have hplain : Plain shadowingPlan.declares := by
    unfold Plain
    decide
  obtain ⟨_, after, hrun⟩ := Outcome.exists_of_isOk (show
    ((Program.run Empty.elim shadowingProgram).run (BlockRange.forkingSettings 39 0 [])
      BlockRange.forkingStart).isOk = true by decide +kernel)
  have halike := alike_interpret_of_compile .empty hcompile hplain
    (BlockRange.forkingSettings 39 0 []) Empty.elim BlockRange.forkingStart
  rw [hrun] at halike
  generalize (shadowingPlan.interpret .empty).run _ _ = outcome at halike ⊢
  cases halike with
  | ok _ hrelated => exact ⟨hcompile, hplain, after, _, hrun, rfl, hrelated.view⟩

end ChainExtract.Plan
