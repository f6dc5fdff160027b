import ChainExtract.Proofs.Typing.Bodies
import ChainExtract.Proofs.Typing.Uses

/-! # Type soundness

At every point at which a run of a compiled plan arrives, visible variables and operands have
values of the types that the compilation has found for them. What is kept from point to point
is that the rest compiles with the names that are visible, and that the store is typed for
these names.
-/

namespace ChainExtract.Plan

variable {σ : Type} {library : Library} {settings : Settings σ} {place : Option Scope}

section Declares

theorem Operand.declaresAll_append (first second : List Operand) :
    declaresAll (first ++ second) = declaresAll first ++ declaresAll second := by
  induction first with
  | nil => rfl
  | cons operand first ih => simp [declaresAll, ih]

theorem Operand.declaresAll_toList (operand? : Option Operand) :
    declaresAll operand?.toList = declares? operand? := by
  cases operand? <;> simp [declaresAll, declares?]

theorem Operand.declaresAll_map {α : Type} (f : α → Operand) (items : List α) :
    declaresAll (items.map f) = items.flatMap fun item => (f item).declares := by
  induction items with
  | nil => rfl
  | cons item items ih => simp [declaresAll, ih]

theorem map_snd_map_plain (operands : List Operand) :
    (operands.map (Use.plain, ·)).map (·.2) = operands := by
  simp [Function.comp_def]

/-- The operands of an instruction declare no more than the instruction. -/
theorem Instruction.declaresAll_uses_subset (instruction : Instruction) :
    Operand.declaresAll (instruction.uses.map (·.2)) ⊆ instruction.declares := by
  intro name hname
  cases instruction <;>
    simp_all [uses, declares, Operand.declaresAll, Operand.declaresAll_append,
      Operand.declaresAll_toList, Operand.declaresAll_map, Operand.declaresCells,
      Attribute.declaresAll, Function.comp_def]
  -- the bodies of these two declare more
  case blocks => exact hname.imp_right Or.inl
  case transactions => exact hname.imp_right Or.inl

/-- The parts of an operand declare no more than the operand. -/
theorem Operand.declaresAll_parts_subset (operand : Operand) :
    declaresAll operand.parts ⊆ operand.declares := by
  cases operand <;> simp [parts, declares, declaresAll]

end Declares

/-- What a part of a plan may declare. -/
def Part.declares : Part → List String
  | instructions rest => Instruction.declaresAll rest
  | operands rest => Operand.declaresAll (rest.map (·.2))

/-- The part compiles at the place with the names. -/
def Part.Compiles (library : Library) (place : Option Scope) (names : Names) : Part → Prop
  | instructions rest => ∃ code after,
    (Instruction.compileAll library place rest).run names = .ok (code, after)
  | operands rest => ∃ after, Fits library place rest names after

theorem Part.of_uses {names : Names} {instruction : Instruction} {rest : List Instruction}
    (hplain : Plain (instructions (instruction :: rest)).declares)
    (hcompiles : (instructions (instruction :: rest)).Compiles library place names) :
    Plain (operands instruction.uses).declares ∧
      (operands instruction.uses).Compiles library place names := by
  obtain ⟨_, _, hall⟩ := hcompiles
  obtain ⟨_, _, hcompile, _⟩ := Compiler.of_bind_ok hall
  exact ⟨Plain.subset (plain_append.mp hplain).1 instruction.declaresAll_uses_subset,
    Instruction.fits_uses hcompile⟩

theorem Part.of_parts {names : Names} {use : Use} {operand : Operand} {rest : List (Use × Operand)}
    (hplain : Plain (operands ((use, operand) :: rest)).declares)
    (hcompiles : (operands ((use, operand) :: rest)).Compiles library place names) :
    Plain (operands (operand.parts.map (.plain, ·))).declares ∧
      (operands (operand.parts.map (.plain, ·))).Compiles library place names := by
  obtain ⟨_, _, _, _, hcompile, _⟩ := hcompiles
  refine ⟨?_, Operand.fits_parts hcompile⟩
  show Plain (Operand.declaresAll _)
  rw [map_snd_map_plain]
  exact Plain.subset (plain_append.mp hplain).1 operand.declaresAll_parts_subset

/-- The inputs of a question compile with the names behind the address and the inputs before.
The questions before it compile with names to which those of all inputs have been issued. -/
theorem Part.of_inputs (settings : Settings σ) {names next second third : Names}
    {address : Operand} {earlier later : List MemberQuery} {query : MemberQuery} {body : List Instruction}
    {contract target : ChainExtract.Operand} {inputs : List (List ChainExtract.Operand)}
    {reads : List MemberRead} {code : List (ChainExtract.Instruction Empty)}
    (hplain : Plain (Instruction.contract address (earlier ++ query :: later) body).declares)
    (hsound : names.Sound)
    (hcompile : ((Instruction.contract address (earlier ++ query :: later) body).compile library
      place).run names = .ok (.contract contract reads code, next))
    (haddress : (Operand.compileTyped library place "smart contract" .address address).run names =
      .ok (target, second))
    (hinputs : (MemberQuery.compileInputs library place earlier).run second = .ok (inputs, third)) :
    contract = target ∧ Plain (operands (query.inputs.map (.plain, ·))).declares ∧
      (operands (query.inputs.map (.plain, ·))).Compiles library place third ∧
      ∃ opened declared, MemberQuery.Compiled library place earlier inputs
        (reads.take earlier.length) second third opened declared := by
  rw [Instruction.declares, plain_append, plain_append] at hplain
  obtain ⟨haddressNames, hqueryNames, _⟩ := hplain
  rw [MemberQuery.declaresAll, List.flatMap_append] at hqueryNames
  obtain ⟨hearlierNames, hlaterNames⟩ := plain_append.mp hqueryNames
  obtain ⟨_, _, _, _, _, fourth, _, _, haddress', hall, hreadAll, _, hsame, _⟩ :=
    Instruction.of_compile_contract_ok hcompile
  cases hsame
  obtain ⟨rfl, rfl⟩ := Prod.mk.inj (Except.ok.inj (haddress.symm.trans haddress'))
  obtain ⟨_, _, _, hinputs', hrest, rfl, hlength⟩ := MemberQuery.of_compileInputs_append_ok hall
  obtain ⟨rfl, rfl⟩ := Prod.mk.inj (Except.ok.inj (hinputs.symm.trans hinputs'))
  obtain ⟨declared, hprefix⟩ := MemberQuery.of_compileAll_append_ok hlength hreadAll
  have hevaluates : Evaluates settings names second _ target.evaluate (address.interpret library) :=
    Operand.evaluates_typed haddressNames hsound haddress
  have hsecond := hevaluates.advances.sound
  have hthird := MemberQuery.advances_compileInputs settings hearlierNames hsecond hinputs
  have hfourth := MemberQuery.advances_compileInputs settings hlaterNames hthird.sound hrest
  obtain ⟨⟨operands, types⟩, last, hoperands, _⟩ := Compiler.of_bind_ok hrest
  refine ⟨rfl, ?_, ⟨last, fits_of_compileAll hoperands⟩, fourth.enter, declared, hearlierNames,
    hsecond, hinputs, hprefix, hfourth.sound.enter, fun _ hissued => hfourth.issued hissued⟩
  show Plain (Operand.declaresAll _)
  rw [map_snd_map_plain]
  exact (plain_append.mp (plain_append.mp hlaterNames).1).1

/-- The invariant of the points of a run. -/
structure Point.Sound (library : Library) (point : Point σ) : Prop where
  names : point.names.Sound
  plain : Plain point.part.declares
  compiles : point.part.Compiles library point.place point.names
  typed : point.names.Typed point.state.store

/-- An instruction leaves the names of the rest of its body, and a store that is typed for them. -/
theorem Instruction.sound_rest (hlibrary : library.Sound) (hclient : settings.client.Conforming)
    {names next : Names} {instruction : Instruction} {rest : List Instruction}
    {compiled : ChainExtract.Instruction Empty} {state after : RunState σ}
    (hpoint : Point.Sound library ⟨place, names, .instructions (instruction :: rest), state⟩)
    (hcompile : (instruction.compile library place).run names = .ok (compiled, next))
    (hrun : (compiled.execute Empty.elim).run settings state = .ok () after) :
    Point.Sound library ⟨place, next, .instructions rest, after⟩ := by
  obtain ⟨hfirstNames, hrestNames⟩ := plain_append.mp hpoint.plain
  have hevaluates : Evaluates settings names next Eq (compiled.execute Empty.elim)
      (instruction.interpret library) :=
    Instruction.evaluates_interpret library Empty.elim instruction hfirstNames hpoint.names hcompile
  obtain ⟨code, last, hall⟩ := hpoint.compiles
  rw [Instruction.compileAll, Compiler.run_bind_of_ok hcompile] at hall
  obtain ⟨others, final, hothers, _⟩ := Compiler.of_bind_ok hall
  exact {
    names := hevaluates.advances.sound
    plain := hrestNames
    compiles := ⟨others, final, hothers⟩
    typed := (hevaluates.typed_of_ok (Instruction.types_interpret hlibrary hclient instruction)
      hpoint.typed hrun).1 }

section Bodies

variable {names next inner : Names} {body : List Instruction} {state begun : RunState σ}
variable {compiled : ChainExtract.Instruction Empty}

theorem sound_body_of_blocks (hlibrary : library.Sound) (hclient : settings.client.Conforming)
    {first : Operand} {last : Option Operand}
    (hplain : Plain (Instruction.blocks first last body).declares) (hsound : names.Sound)
    (htyped : names.Typed state.store)
    (hcompile : ((Instruction.blocks first last body).compile library place).run names =
      .ok (compiled, next))
    (hopening : ((Instruction.blocks first last body).opening library place).run names =
      .ok ((), inner))
    (hbegins : compiled.Begins settings state begun) :
    Point.Sound library ⟨some .block, inner, .instructions body, begun⟩ := by
  rw [Instruction.declares, plain_append, plain_append] at hplain
  obtain ⟨hfirstNames, hlastNames, hbodyNames⟩ := hplain
  obtain ⟨lower, upper, code, second, third, final, hlower, hupper, hcode, rfl, rfl⟩ :=
    Instruction.of_compile_blocks_ok hcompile
  rw [Instruction.opening, Compiler.run_bind_of_ok hlower,
    Compiler.run_bind_of_ok hupper] at hopening
  cases hopening
  have hfirst : Evaluates settings names second _ lower.evaluate (first.interpret library) :=
    Operand.evaluates_typed hfirstNames hsound hlower
  have hlast : Evaluates settings second third Eq (ChainExtract.Operand.evaluate? upper)
      (Operand.interpret? library last) :=
    Operand.evaluates_typed? hlastNames hfirst.advances.sound hupper
  have hthird := hlast.advances.sound.enter
  have hbody : Evaluates settings third.enter final Eq _ (Instruction.interpretAll library body) :=
    Instruction.evaluatesAll_interpretAll library Empty.elim body hbodyNames hthird hcode
  have htypes := Instruction.types_interpretAll hlibrary hclient body
  exact ⟨hthird, hbodyNames, ⟨code, final, hcode⟩,
    typed_of_begins_blocks hlibrary hfirst hlast hbody htypes htyped hbegins⟩

theorem sound_body_of_transactions (hlibrary : library.Sound)
    (hclient : settings.client.Conforming) {senders recipients : Option Operand}
    (hplain : Plain (Instruction.transactions senders recipients body).declares)
    (hsound : names.Sound) (htyped : names.Typed state.store)
    (hcompile : ((Instruction.transactions senders recipients body).compile library place).run
      names = .ok (compiled, next))
    (hopening : ((Instruction.transactions senders recipients body).opening library place).run
      names = .ok ((), inner))
    (hbegins : compiled.Begins settings state begun) :
    Point.Sound library ⟨some .transaction, inner, .instructions body, begun⟩ := by
  rw [Instruction.declares, plain_append, plain_append] at hplain
  obtain ⟨hsenderNames, hrecipientNames, hbodyNames⟩ := hplain
  obtain ⟨senders?, recipients?, code, second, third, final, hfrom, hto, hcode, rfl, rfl⟩ :=
    Instruction.of_compile_transactions_ok hcompile
  rw [Instruction.opening, Compiler.run_bind_of_ok hfrom, Compiler.run_bind_of_ok hto] at hopening
  cases hopening
  have hsenders : Evaluates settings names second Eq
      (evaluateAddresses "transaction senders" senders?)
      (Operand.interpretAddresses library "transaction senders" senders) :=
    Operand.evaluates_interpretAddresses _ _ hsenderNames hsound hfrom
  have hrecipients : Evaluates settings second third Eq
      (evaluateAddresses "transaction recipients" recipients?)
      (Operand.interpretAddresses library "transaction recipients" recipients) :=
    Operand.evaluates_interpretAddresses _ _ hrecipientNames hsenders.advances.sound hto
  have hthird := hrecipients.advances.sound.enter
  have hbody : Evaluates settings third.enter final Eq _ (Instruction.interpretAll library body) :=
    Instruction.evaluatesAll_interpretAll library Empty.elim body hbodyNames hthird hcode
  have htypes := Instruction.types_interpretAll hlibrary hclient body
  exact ⟨hthird, hbodyNames, ⟨code, final, hcode⟩,
    typed_of_begins_transactions hlibrary hsenders hrecipients hbody htypes htyped hbegins⟩

theorem sound_body_of_logEntries (hlibrary : library.Sound) (hclient : settings.client.Conforming)
    {event : String} {parameters : List Parameter} {emitters : Option Operand}
    (hplain : Plain (Instruction.logEntries event parameters emitters body).declares)
    (hsound : names.Sound) (htyped : names.Typed state.store)
    (hcompile : ((Instruction.logEntries event parameters emitters body).compile library
      place).run names = .ok (compiled, next))
    (hopening : ((Instruction.logEntries event parameters emitters body).opening library
      place).run names = .ok ((), inner))
    (hbegins : compiled.Begins settings state begun) :
    Point.Sound library ⟨some .logEntry, inner, .instructions body, begun⟩ := by
  rw [Instruction.declares, plain_append, plain_append] at hplain
  obtain ⟨hemitterNames, hparameterNames, hbodyNames⟩ := hplain
  obtain ⟨emitters?, stored, code, second, third, final, hfrom, hparameters, hcode, rfl, rfl⟩ :=
    Instruction.of_compile_logEntries_ok hcompile
  have hentered : (modify Names.enter : Compiler Unit).run second = .ok ((), second.enter) := rfl
  rw [Instruction.opening, Compiler.run_bind_of_ok hfrom, Compiler.run_bind_of_ok hentered,
    Compiler.run_bind_of_ok hparameters] at hopening
  cases hopening
  obtain ⟨declared, _, hnames, hshape, hpair⟩ := Parameter.of_compileAll_ok hparameters
  obtain ⟨hstored, rfl⟩ := Prod.mk.inj hpair
  have hemitters : Evaluates settings names second Eq
      (evaluateAddresses "log entry addresses" emitters?)
      (Operand.interpretAddresses library "log entry addresses" emitters) :=
    Operand.evaluates_interpretAddresses _ _ hemitterNames hsound hfrom
  have hvars : ∀ var ∈ eventVars ⟨event, declared⟩, '#' ∉ var.1.toList :=
    plain_eventVars (hnames ▸ hparameterNames)
  have hsame : EventDecl.SameShape ⟨event, declared⟩ ⟨event, stored⟩ := ⟨rfl, hshape⟩
  have hthird := (hemitters.advances.sound.enter.advances_declareAll hvars).sound
  have hbody : Evaluates settings _ final Eq _ (Instruction.interpretAll library body) :=
    Instruction.evaluatesAll_interpretAll library Empty.elim body hbodyNames hthird hcode
  have htypes := Instruction.types_interpretAll hlibrary hclient body
  exact ⟨hthird, hbodyNames, ⟨code, final, hcode⟩,
    typed_of_begins_logEntries hlibrary hemitters hvars hsame hstored hbody htypes htyped hbegins⟩

theorem sound_body_of_when (hlibrary : library.Sound) {condition : Operand}
    (hplain : Plain (Instruction.when condition body).declares) (hsound : names.Sound)
    (htyped : names.Typed state.store)
    (hcompile : ((Instruction.when condition body).compile library place).run names =
      .ok (compiled, next))
    (hopening : ((Instruction.when condition body).opening library place).run names =
      .ok ((), inner))
    (hbegins : compiled.Begins settings state begun) :
    Point.Sound library ⟨place, inner, .instructions body, begun⟩ := by
  rw [Instruction.declares, plain_append] at hplain
  obtain ⟨hconditionNames, hbodyNames⟩ := hplain
  obtain ⟨test, code, second, final, htest, hcode, rfl, rfl⟩ :=
    Instruction.of_compile_when_ok hcompile
  rw [Instruction.opening, Compiler.run_bind_of_ok htest] at hopening
  cases hopening
  have hcondition : Evaluates settings names second _ test.evaluate (condition.interpret library) :=
    Operand.evaluates_typed hconditionNames hsound htest
  exact ⟨hcondition.advances.sound.enter, hbodyNames, ⟨code, final, hcode⟩,
    typed_of_begins_when hlibrary hcondition htyped hbegins⟩

theorem sound_body_of_contract (hlibrary : library.Sound) (hclient : settings.client.Conforming)
    {address : Operand} {queries : List MemberQuery}
    (hplain : Plain (Instruction.contract address queries body).declares) (hsound : names.Sound)
    (htyped : names.Typed state.store)
    (hcompile : ((Instruction.contract address queries body).compile library place).run names =
      .ok (compiled, next))
    (hopening : ((Instruction.contract address queries body).opening library place).run names =
      .ok ((), inner))
    (hbegins : compiled.Begins settings state begun) :
    Point.Sound library ⟨place, inner, .instructions body, begun⟩ := by
  rw [Instruction.declares, plain_append, plain_append] at hplain
  obtain ⟨haddressNames, hqueryNames, hbodyNames⟩ := hplain
  obtain ⟨contract, inputs, reads, code, second, third, fourth, final, hcontract, hinputs, hreads,
    hcode, rfl, rfl⟩ := Instruction.of_compile_contract_ok hcompile
  have hentered : (modify Names.enter : Compiler Unit).run third = .ok ((), third.enter) := rfl
  rw [Instruction.opening, Compiler.run_bind_of_ok hcontract, Compiler.run_bind_of_ok hinputs,
    Compiler.run_bind_of_ok hentered, Compiler.run_bind_of_ok hreads] at hopening
  cases hopening
  have haddress : Evaluates settings names second _ contract.evaluate (address.interpret library) :=
    Operand.evaluates_typed haddressNames hsound hcontract
  have hcompiled :=
    MemberQuery.compiled_enter settings hqueryNames haddress.advances.sound hinputs hreads
  exact ⟨hcompiled.advances_reads.sound, hbodyNames, ⟨code, final, hcode⟩,
    typed_of_begins_contract hlibrary hclient haddress hcompiled htyped hbegins⟩

/-- The instruction has a body. -/
def Instruction.Nests : Instruction → Prop
  | blocks _ _ _ | transactions _ _ _ | logEntries _ _ _ _ | «when» _ _ | contract _ _ _ => True
  | assign _ _ | call _ _ _ | exportRow _ _ | exportLine _ | exportEvent _ _ _ => False

theorem Instruction.nests_of_begins {instruction : Instruction}
    (hcompile : (instruction.compile library place).run names = .ok (compiled, next))
    (hbegins : compiled.Begins settings state begun) : instruction.Nests := by
  cases instruction with
  | blocks | transactions | logEntries | «when» | contract => trivial
  | assign target value =>
      obtain ⟨_, _, _, _, rfl, _⟩ := of_compile_assign_ok hcompile
      cases hbegins
  | call method arguments result =>
      obtain ⟨_, _, _, _, _, _, _, rfl⟩ := of_compile_call_ok hcompile
      cases hbegins
  | exportRow table columns =>
      obtain ⟨_, _, rfl⟩ := of_compile_exportRow_ok hcompile
      cases hbegins
  | exportLine parts =>
      obtain ⟨_, _, _, rfl⟩ := of_compile_exportLine_ok hcompile
      cases hbegins
  | exportEvent trace event attributes =>
      obtain ⟨_, _, _, _, _, _, _, _, _, _, rfl⟩ := of_compile_exportEvent_ok hcompile
      cases hbegins

/-- Each time that an instruction begins its body, the body compiles with the names behind the
opening, and the store is typed for them. -/
theorem Instruction.sound_body (hlibrary : library.Sound) (hclient : settings.client.Conforming)
    {instruction : Instruction} {rest : List Instruction}
    (hpoint : Point.Sound library ⟨place, names, .instructions (instruction :: rest), state⟩)
    (hcompile : (instruction.compile library place).run names = .ok (compiled, next))
    (hopening : (instruction.opening library place).run names = .ok ((), inner))
    (hbegins : compiled.Begins settings state begun) :
    Point.Sound library
      ⟨instruction.bodyPlace place, inner, .instructions instruction.body, begun⟩ := by
  have hnests := nests_of_begins hcompile hbegins
  have hplain := (plain_append.mp hpoint.plain).1
  have hsound : names.Sound := hpoint.names
  have htyped : names.Typed state.store := hpoint.typed
  cases instruction with
  | blocks first last body =>
      exact sound_body_of_blocks hlibrary hclient hplain hsound htyped hcompile hopening hbegins
  | transactions senders recipients body =>
      exact sound_body_of_transactions hlibrary hclient hplain hsound htyped hcompile hopening
        hbegins
  | logEntries event parameters emitters body =>
      exact sound_body_of_logEntries hlibrary hclient hplain hsound htyped hcompile hopening hbegins
  | «when» condition body =>
      exact sound_body_of_when hlibrary hplain hsound htyped hcompile hopening hbegins
  | contract address queries body =>
      exact sound_body_of_contract hlibrary hclient hplain hsound htyped hcompile hopening hbegins
  | assign | call | exportRow | exportLine | exportEvent => cases hnests

end Bodies

section Steps

variable {names next : Names} {state after : RunState σ}

/-- The inputs of a question compile with the names behind the address and the inputs before.
What the earlier questions have set is not visible to them. -/
theorem sound_inputs (hlibrary : library.Sound) (hclient : settings.client.Conforming)
    {second third : Names} {address : Operand} {earlier later : List MemberQuery}
    {query : MemberQuery} {body rest : List Instruction} {contract target : ChainExtract.Operand}
    {inputs : List (List ChainExtract.Operand)} {reads : List MemberRead}
    {code : List (ChainExtract.Instruction Empty)}
    (hpoint : Point.Sound library
      ⟨place, names, .instructions (.contract address (earlier ++ query :: later) body :: rest),
        state⟩)
    (hcompile : ((Instruction.contract address (earlier ++ query :: later) body).compile library
      place).run names = .ok (.contract contract reads code, next))
    (haddress : (Operand.compileTyped library place "smart contract" .address address).run names =
      .ok (target, second))
    (hinputs : (MemberQuery.compileInputs library place earlier).run second = .ok (inputs, third))
    (hreads : (do
      let target ← ContractFilter.target (← contract.evaluate)
      (reads.take earlier.length).forM (ContractFilter.read target)).run settings state =
        .ok () after) :
    Point.Sound library ⟨place, third, .operands (query.inputs.map (.plain, ·)), after⟩ := by
  have hplain := (plain_append.mp hpoint.plain).1
  obtain ⟨rfl, hinputNames, hfits, opened, declared, hcompiled⟩ :=
    Part.of_inputs settings hplain hpoint.names hcompile haddress hinputs
  rw [Instruction.declares, plain_append] at hplain
  have hevaluates : Evaluates settings names second _ contract.evaluate
      (address.interpret library) :=
    Operand.evaluates_typed hplain.1 hpoint.names haddress
  exact ⟨(hcompiled.advances_inputs settings).sound, hinputNames, hfits,
    typed_of_asked hlibrary hclient hevaluates hcompiled hpoint.typed hreads⟩

/-- An operand leaves the names of the others, and a store that is typed for them. -/
theorem sound_operands (hlibrary : library.Sound) {use : Use} {operand : Operand}
    {rest : List (Use × Operand)} {compiled : ChainExtract.Operand} {type : ValueType}
    {value : Value}
    (hpoint : Point.Sound library ⟨place, names, .operands ((use, operand) :: rest), state⟩)
    (hcompile : (operand.compile library place).run names = .ok ((compiled, type), next))
    (hrun : compiled.evaluate.run settings state = .ok value after) :
    Point.Sound library ⟨place, next, .operands rest, after⟩ := by
  obtain ⟨hfirstNames, hrestNames⟩ := plain_append.mp hpoint.plain
  obtain ⟨last, _, _, _, hcompile', _, hrest⟩ := hpoint.compiles
  obtain ⟨hpair, rfl⟩ := Prod.mk.inj (Except.ok.inj (hcompile.symm.trans hcompile'))
  have hevaluates : Evaluates settings names next _ compiled.evaluate (operand.interpret library) :=
    Operand.evaluates_interpret library place operand hfirstNames hpoint.names hcompile
  exact ⟨hevaluates.advances.sound, hrestNames, ⟨last, hrest⟩,
    (hevaluates.typed_of_ok (Operand.types_interpret hlibrary operand) hpoint.typed hrun).1⟩

end Steps

variable {point : Point σ}

/-- The invariant is kept from point to point. -/
theorem Point.Sound.leads (hlibrary : library.Sound) (hclient : settings.client.Conforming)
    {target : Point σ} (hpoint : point.Sound library)
    (hleads : Leads library settings point target) : target.Sound library := by
  cases hleads with
  | instruction hcompile hrun =>
      exact Instruction.sound_rest hlibrary hclient hpoint hcompile hrun
  | body hcompile hopening hbegins =>
      exact Instruction.sound_body hlibrary hclient hpoint hcompile hopening hbegins
  | uses =>
      obtain ⟨hplain, hcompiles⟩ := Part.of_uses hpoint.plain hpoint.compiles
      exact ⟨hpoint.names, hplain, hcompiles, hpoint.typed⟩
  | inputs hcompile haddress hinputs hreads =>
      exact sound_inputs hlibrary hclient hpoint hcompile haddress hinputs hreads
  | operand hcompile hrun => exact sound_operands hlibrary hpoint hcompile hrun
  | parts =>
      obtain ⟨hplain, hcompiles⟩ := Part.of_parts hpoint.plain hpoint.compiles
      exact ⟨hpoint.names, hplain, hcompiles, hpoint.typed⟩

theorem Point.Sound.wellTyped (hlibrary : library.Sound) (hpoint : point.Sound library) :
    point.WellTyped library settings := by
  refine ⟨fun _ _ hfind => hpoint.typed.find?_some hfind, ?_⟩
  intro use operand rest hpart
  have hplain := hpoint.plain
  have hcompiles := hpoint.compiles
  rw [hpart] at hplain hcompiles
  obtain ⟨_, compiled, type, next, hcompile, hadmits, _⟩ := hcompiles
  refine ⟨compiled, type, next, hcompile, fun value after hrun => ?_⟩
  have hevaluates : Evaluates settings point.names next _ compiled.evaluate
      (operand.interpret library) :=
    Operand.evaluates_interpret library point.place operand (plain_append.mp hplain).1 hpoint.names
      hcompile
  obtain ⟨_, _, rfl, hvalue⟩ := hevaluates.typed_of_ok (Operand.types_interpret hlibrary operand)
    hpoint.typed hrun
  exact ⟨hvalue, fun hany hlist => Use.takes_of_conforms hadmits hany hlist hvalue⟩

/-- The invariant holds at every point at which a run of a compiled plan arrives. -/
theorem Point.sound_of_arrives (hlibrary : library.Sound) (hclient : settings.client.Conforming)
    {plan : Plan} {program : Program Empty} (hcompile : plan.compile library = .ok program)
    (hplain : Plain plan.declares) {start : RunState σ}
    (harrives : Arrives library settings plan start point) : point.Sound library := by
  induction harrives with
  | refl =>
      obtain ⟨after, hall⟩ := exists_run_of_compile hcompile
      exact ⟨Names.sound_empty, hplain, ⟨program, after, hall⟩, Names.typed_empty start.store⟩
  | tail _ hleads ih => exact ih.leads hlibrary hclient hleads

/-- Compiled plans are sound: wherever a run arrives, visible variables and operands have values
of the types that the compilation has found for them, and no operand whose type says something
has a value that is refused for its use. -/
theorem wellTyped_of_arrives {plan : Plan} {program : Program Empty}
    (hcompile : plan.compile .standard = .ok program) (hplain : Plain plan.declares)
    (hclient : settings.client.Conforming) {start : RunState σ}
    (harrives : Arrives .standard settings plan start point) :
    point.WellTyped .standard settings :=
  (Point.sound_of_arrives Library.sound_standard hclient hcompile hplain harrives).wellTyped
    Library.sound_standard

/-- Runs against a node are sound whatever the node answers: its client decodes answers after the
types that were asked for. -/
theorem wellTyped_of_node {node : Node σ} (hnode : settings.client = node.client) {plan : Plan}
    {program : Program Empty} (hcompile : plan.compile .standard = .ok program)
    (hplain : Plain plan.declares) {start : RunState σ}
    (harrives : Arrives .standard settings plan start point) :
    point.WellTyped .standard settings := by
  have hclient : settings.client.Conforming := hnode ▸ node.conforming_client
  exact (Point.sound_of_arrives Library.sound_standard hclient hcompile hplain harrives).wellTyped
    Library.sound_standard

/-- A chain with contracts that can be asked for a truth value. -/
def pausableSettings : Settings Nat where
  client :=
    { BlockRange.forkingClient 39 0 [] with
      member := fun query count =>
        (if query.outputTypes = ["bool"] then .ok [.bool true] else .error ⟨"no such member", []⟩,
          count) }
  abortOnFailure := false
  patience := 100
  stamp := ""

theorem conforming_pausableSettings : pausableSettings.client.Conforming := by
  intro query state values hanswer
  simp only [pausableSettings] at hanswer
  split at hanswer
  next htypes =>
    cases hanswer
    intro pair hpair type htype
    rw [htypes] at hpair
    obtain rfl := List.mem_singleton.mp hpair
    have hbool : SolType.parse "bool" = .ok .bool := rfl
    obtain rfl : SolType.bool = type := Except.ok.inj (hbool.symm.trans htype)
    trivial
  next => cases hanswer

/-- Asks a contract whether it is paused, and looks at the answer. -/
def pausedContract : Instruction :=
  .contract (.address (.zero 20)) [⟨"paused", [], [⟨"paused", "bool"⟩]⟩]
    [.when (.stored "paused") []]

def pausedPlan : Plan where
  outputs := []
  instructions := [.blocks (.literal (.scalar (.integer 1))) none [pausedContract]]

def pausedProgram : Program Empty :=
  [.blocks (.literal (.int 1)) none
    [.contract (.literal (.addr (.zero 20))) [⟨"paused", [], [("paused", "bool")]⟩]
      [.when (.stored "paused") []]]]

/-- Whether a block has been fetched, and the connection is still open. -/
def fetchedOpen : Outcome Nat (Except Error (Block × Window)) → Bool
  | .ok (.ok _) after => !after.closed
  | _ => false

theorem exists_fetched : ∃ block window fetched, fetched.closed = false ∧
    (BlockRange.fetch { capacity := Window.rangeCapacity } 1).run pausableSettings
      BlockRange.forkingStart = .ok (.ok (block, window)) fetched := by
  have hopen : fetchedOpen ((BlockRange.fetch { capacity := Window.rangeCapacity } 1).run
      pausableSettings BlockRange.forkingStart) = true := by decide +kernel
  generalize (BlockRange.fetch _ 1).run _ _ = outcome at hopen
  cases outcome with
  | ok result fetched =>
      cases result with
      | ok pair => exact ⟨pair.1, pair.2, fetched, by simpa [fetchedOpen] using hopen, rfl⟩
      | error => cases hopen
  | failed | unfinished => cases hopen

theorem wellTyped_of_arrives_paused :
    pausedPlan.compile .standard = .ok pausedProgram ∧ Plain pausedPlan.declares ∧
      pausableSettings.client.Conforming ∧ ∃ names begun,
        Arrives .standard pausableSettings pausedPlan BlockRange.forkingStart
          ⟨some .block, names, .operands [(.condition, .stored "paused")], begun⟩ ∧
        Point.WellTyped .standard pausableSettings
          ⟨some .block, names, .operands [(.condition, .stored "paused")], begun⟩ := by
  have hcompile : pausedPlan.compile .standard = .ok pausedProgram := rfl
  have hplain : Plain pausedPlan.declares := by
    unfold Plain
    decide
  obtain ⟨block, window, ⟨chain, _, _, store, sinks, folder, journal⟩, rfl, hfetch⟩ :=
    exists_fetched
  have hrange : Leads .standard pausableSettings
      ⟨none, {}, .instructions pausedPlan.instructions, BlockRange.forkingStart⟩
      ⟨some .block, ({} : Names).enter, .instructions [pausedContract],
        ⟨chain, false, .atBlock block, store, sinks, folder, .delivered block :: journal⟩⟩ :=
    .body rfl rfl (.blocks rfl rfl rfl rfl .start rfl hfetch)
  have hcontract : Leads .standard pausableSettings
      ⟨some .block, ({} : Names).enter, .instructions [pausedContract],
        ⟨chain, false, .atBlock block, store, sinks, folder, .delivered block :: journal⟩⟩
      ⟨some .block, _, .instructions [.when (.stored "paused") []], _⟩ :=
    .body rfl rfl (.contract rfl)
  have harrives := ((Relation.ReflTransGen.refl.tail hrange).tail hcontract).tail .uses
  exact ⟨hcompile, hplain, conforming_pausableSettings, _, _, harrives,
    wellTyped_of_arrives hcompile hplain conforming_pausableSettings harrives⟩

end ChainExtract.Plan
