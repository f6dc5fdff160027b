import ChainExtract.Proofs.Scoping.Operands

/-! # Reads of contract state

The inputs of all questions are operands of the enclosing body, while what the
members return is set under storage names that are new behind all of them. What
has been set is pinned until the body begins, which sees it as the first
variables of its frame.
-/

namespace ChainExtract.Plan

variable {σ α β : Type} {settings : Settings σ} {library : Library} {place : Option Scope}

theorem MemberOutput.of_compileAll_ok {outputs : List MemberOutput} {names after : Names}
    {stored : List (String × String)}
    (hcompile : (MemberOutput.compileAll outputs).run names = .ok (stored, after)) :
    ∃ vars, MemberOutput.interpretAll outputs = .ok vars ∧
      vars.map (·.1) = outputs.map (·.name) ∧ stored.map (·.2) = outputs.map (·.type) ∧
      (stored.map (·.1), after) = names.declareAll vars := by
  induction outputs generalizing names stored with
  | nil =>
      obtain ⟨rfl, rfl⟩ := Compiler.of_pure_ok hcompile
      exact ⟨[], rfl, rfl, rfl, rfl⟩
  | cons output rest ih =>
      obtain ⟨type, middle, htype, hlater⟩ := Compiler.of_bind_ok hcompile
      obtain ⟨hparse, rfl⟩ := Compiler.of_ofExcept_ok htype
      obtain ⟨storage, next, hstorage, hlater⟩ := Compiler.of_bind_ok hlater
      obtain ⟨rfl, rfl⟩ := Compiler.of_declare_ok hstorage
      obtain ⟨others, last, hothers, hreturn⟩ := Compiler.of_bind_ok hlater
      obtain ⟨rfl, rfl⟩ := Compiler.of_pure_ok hreturn
      obtain ⟨vars, hinterpret, hnames, htypes, hpair⟩ := ih hothers
      refine ⟨(output.name, type.valueType) :: vars, ?_, ?_, ?_, ?_⟩
      · rw [MemberOutput.interpretAll, hparse, hinterpret]
        rfl
      · rw [List.map_cons, List.map_cons, hnames]
      · rw [List.map_cons, List.map_cons, htypes]
      · rw [List.map_cons, Names.declareAll, ← hpair]

/-- The variables that a question may declare: its inputs in the enclosing body, and its
outputs in the body behind it. -/
def MemberQuery.declares (query : MemberQuery) : List String :=
  Operand.declaresAll query.inputs ++ query.outputs.map (·.name)

def MemberQuery.declaresAll (queries : List MemberQuery) : List String :=
  queries.flatMap MemberQuery.declares

theorem MemberQuery.of_compileAll_ok {queries : List MemberQuery}
    {inputs : List (List ChainExtract.Operand)} {start after : Names} {reads : List MemberRead}
    (hplain : Plain (declaresAll queries))
    (hcompile : (MemberQuery.compileAll queries inputs).run start = .ok (reads, after)) :
    ∃ vars : List (String × ValueType), Plain (vars.map (·.1)) ∧
      (reads.flatMap MemberRead.names, after) = start.declareAll vars := by
  induction queries generalizing inputs start reads with
  | nil =>
      obtain ⟨rfl, rfl⟩ := Compiler.of_pure_ok hcompile
      exact ⟨[], by simp [Plain], rfl⟩
  | cons query queries ih =>
      cases inputs with
      | nil =>
          obtain ⟨rfl, rfl⟩ := Compiler.of_pure_ok hcompile
          exact ⟨[], by simp [Plain], rfl⟩
      | cons input inputs =>
          obtain ⟨hfirstNames, hrestNames⟩ := plain_append.mp hplain
          obtain ⟨outputs, middle, houtputs, hlater⟩ := Compiler.of_bind_ok hcompile
          obtain ⟨others, last, hothers, hreturn⟩ := Compiler.of_bind_ok hlater
          obtain ⟨rfl, rfl⟩ := Compiler.of_pure_ok hreturn
          obtain ⟨vars, _, hnames, _, hfirst⟩ := MemberOutput.of_compileAll_ok houtputs
          obtain ⟨later, hlaterNames, hrest⟩ := ih hrestNames hothers
          refine ⟨vars ++ later, ?_, ?_⟩
          · rw [List.map_append, plain_append, hnames]
            exact ⟨(plain_append.mp hfirstNames).2, hlaterNames⟩
          · rw [Names.declareAll_append, ← hfirst, ← hrest]
            rfl

theorem MemberQuery.advances_compileAll {queries : List MemberQuery}
    {inputs : List (List ChainExtract.Operand)} {start after : Names} {reads : List MemberRead}
    (hplain : Plain (declaresAll queries)) (hsound : start.Sound)
    (hcompile : (MemberQuery.compileAll queries inputs).run start = .ok (reads, after)) :
    start.Advances after := by
  obtain ⟨vars, hvars, hpair⟩ := MemberQuery.of_compileAll_ok hplain hcompile
  obtain ⟨_, rfl⟩ := Prod.mk.inj hpair
  exact hsound.advances_declareAll (plain_map_fst.mp hvars)

theorem MemberQuery.advances_compileInputs (settings : Settings σ) {queries : List MemberQuery}
    {names after : Names} {inputs : List (List ChainExtract.Operand)}
    (hplain : Plain (declaresAll queries)) (hsound : names.Sound)
    (hcompile : (MemberQuery.compileInputs library place queries).run names =
      .ok (inputs, after)) : names.Advances after := by
  induction queries generalizing names inputs with
  | nil =>
      obtain ⟨_, rfl⟩ := Compiler.of_pure_ok hcompile
      exact .refl hsound
  | cons query queries ih =>
      obtain ⟨hfirstNames, hrestNames⟩ := plain_append.mp hplain
      obtain ⟨⟨first, types⟩, middle, hfirst, hlater⟩ := Compiler.of_bind_ok hcompile
      obtain ⟨others, last, hothers, hreturn⟩ := Compiler.of_bind_ok hlater
      obtain ⟨_, rfl⟩ := Compiler.of_pure_ok hreturn
      have hevaluates : Evaluates settings names middle _ _ _ :=
        Operand.evaluatesAll_interpretAll library place query.inputs (plain_append.mp hfirstNames).1
          hsound hfirst
      exact hevaluates.advances.trans (ih hrestNames hevaluates.advances.sound hothers)

/-- A question is compiled: its inputs lead from `names` to `next`, and what is returned is stored
under the names that its outputs get when they are declared behind `start`. -/
structure MemberQuery.Asks (library : Library) (place : Option Scope) (query : MemberQuery)
    (read : MemberRead) (inputTypes : List ValueType) (vars : List (String × ValueType))
    (names next start : Names) : Prop where
  sound : names.Sound
  plainInputs : Plain (Operand.declaresAll query.inputs)
  plainVars : ∀ declared ∈ vars, '#' ∉ declared.1.toList
  ofInputs : (Operand.compileAll library place query.inputs).run names =
    .ok ((read.inputs, inputTypes), next)
  member : read.member = query.member
  types : read.outputs.map (·.2) = query.outputs.map (·.type)
  outputs : MemberOutput.interpretAll query.outputs = .ok vars
  storages : read.names = (start.declareAll vars).1

/-- Questions are compiled, their inputs from `names` to `middle` in the enclosing body and their
outputs from `start` to `declared` in the body behind them. What is issued in the enclosing body is
issued there. -/
structure MemberQuery.Compiled (library : Library) (place : Option Scope)
    (queries : List MemberQuery) (inputs : List (List ChainExtract.Operand))
    (reads : List MemberRead) (names middle start declared : Names) : Prop where
  plain : Plain (declaresAll queries)
  sound : names.Sound
  ofInputs : (compileInputs library place queries).run names = .ok (inputs, middle)
  ofReads : (compileAll queries inputs).run start = .ok (reads, declared)
  startSound : start.Sound
  issued : ∀ storage, middle.Issued storage → start.Issued storage

/-- Pins that questions leave alone: they are no variables of the enclosing body, and no outputs of
the questions. -/
structure MemberQuery.Spares (middle start declared : Names) (pins : List (String × Value)) :
    Prop where
  unissued : ∀ pin ∈ pins, ¬ middle.Issued pin.1
  apart : ∀ pin ∈ pins, start.Issued pin.1 ∨ ¬ declared.Issued pin.1

namespace MemberQuery

variable {query : MemberQuery} {read : MemberRead} {inputTypes : List ValueType}
variable {vars : List (String × ValueType)} {names next middle start declared : Names}
variable {queries : List MemberQuery} {inputs : List (List ChainExtract.Operand)}
variable {reads : List MemberRead} {pins : List (String × Value)}

theorem Asks.evaluates (settings : Settings σ)
    (hasks : Asks library place query read inputTypes vars names next start) :
    Evaluates settings names next (fun values result => result = (values, inputTypes))
      (ChainExtract.Operand.evaluateAll read.inputs) (Operand.interpretAll library query.inputs) :=
  Operand.evaluatesAll_interpretAll library place query.inputs hasks.plainInputs hasks.sound
    hasks.ofInputs

theorem Asks.length_names
    (hasks : Asks library place query read inputTypes vars names next start) :
    read.names.length = vars.length := by
  rw [hasks.storages, Names.length_declareAll]

theorem Asks.nodup_names (hasks : Asks library place query read inputTypes vars names next start)
    (hstart : start.Sound) : read.names.Nodup := by
  rw [hasks.storages]
  exact hstart.nodup_declareAll hasks.plainVars

theorem Asks.fresh_names (hasks : Asks library place query read inputTypes vars names next start)
    (hstart : start.Sound) {storage : String} (hstorage : storage ∈ read.names) :
    ¬ start.Issued storage ∧ (start.declareAll vars).2.Issued storage :=
  hstart.declareAll_fresh hasks.plainVars (hasks.storages ▸ hstorage)

theorem Compiled.advances_inputs (settings : Settings σ)
    (hcompiled : Compiled library place queries inputs reads names middle start declared) :
    names.Advances middle :=
  advances_compileInputs settings hcompiled.plain hcompiled.sound hcompiled.ofInputs

theorem Compiled.advances_reads
    (hcompiled : Compiled library place queries inputs reads names middle start declared) :
    start.Advances declared :=
  advances_compileAll hcompiled.plain hcompiled.startSound hcompiled.ofReads

/-- The first question is compiled, and so are those behind it. -/
theorem Compiled.of_cons (settings : Settings σ)
    (hcompiled : Compiled library place (query :: queries) inputs reads names middle start
      declared) :
    ∃ read laterReads laterInputs inputTypes vars next, reads = read :: laterReads ∧
      Asks library place query read inputTypes vars names next start ∧
      Compiled library place queries laterInputs laterReads next middle (start.declareAll vars).2
        declared := by
  obtain ⟨hfirstNames, hrestNames⟩ := plain_append.mp hcompiled.plain
  obtain ⟨⟨first, types⟩, next, hfirst, hlater⟩ := Compiler.of_bind_ok hcompiled.ofInputs
  obtain ⟨others, last, hothers, hreturn⟩ := Compiler.of_bind_ok hlater
  obtain ⟨rfl, rfl⟩ := Compiler.of_pure_ok hreturn
  obtain ⟨outputs, second, houtputs, hlaterReads⟩ := Compiler.of_bind_ok hcompiled.ofReads
  obtain ⟨laterReads, _, hlaterReads, hreturn⟩ := Compiler.of_bind_ok hlaterReads
  obtain ⟨rfl, rfl⟩ := Compiler.of_pure_ok hreturn
  obtain ⟨vars, hvars, hnames, htypes, hpair⟩ := MemberOutput.of_compileAll_ok houtputs
  obtain ⟨hstorages, rfl⟩ := Prod.mk.inj hpair
  obtain ⟨hinputNames, hvarNames⟩ := plain_append.mp hfirstNames
  rw [← hnames, plain_map_fst] at hvarNames
  have hasks : Asks library place query ⟨query.member, first, outputs⟩ types vars names next start :=
    ⟨hcompiled.sound, hinputNames, hvarNames, hfirst, rfl, htypes, hvars, hstorages⟩
  have hsecond := hcompiled.startSound.advances_declareAll hvarNames
  exact ⟨_, laterReads, others, types, vars, next, rfl, hasks, hrestNames,
    (hasks.evaluates settings).advances.sound, hothers, hlaterReads, hsecond.sound,
    fun storage hmiddle => hsecond.issued (hcompiled.issued storage hmiddle)⟩

theorem Spares.notMem_names (hspares : Spares middle start declared pins)
    (hasks : Asks library place query read inputTypes vars names next start)
    (hstart : start.Sound) (hdeclared : (start.declareAll vars).2.Advances declared) :
    ∀ pin ∈ pins, pin.1 ∉ read.names := by
  intro pin hpin hstorage
  obtain ⟨hnew, hissued⟩ := hasks.fresh_names hstart hstorage
  rcases hspares.apart pin hpin with hold | hnever
  · exact hnew hold
  · exact hnever (hdeclared.issued hissued)

/-- What a question has returned is pinned for those behind it. -/
theorem Spares.append (hspares : Spares middle start declared pins)
    (hasks : Asks library place query read inputTypes vars names next start)
    (hstart : start.Sound) (hissued : ∀ storage, middle.Issued storage → start.Issued storage)
    (values : List Value) :
    Spares middle (start.declareAll vars).2 declared (pins ++ read.names.zip values) where
  unissued := by
    intro pin hpin hmiddle
    rcases List.mem_append.mp hpin with hold | hnew
    · exact hspares.unissued pin hold hmiddle
    · exact (hasks.fresh_names hstart (List.of_mem_zip hnew).1).1 (hissued pin.1 hmiddle)
  apart := by
    intro pin hpin
    rcases List.mem_append.mp hpin with hold | hnew
    · exact (hspares.apart pin hold).imp_left (hstart.advances_declareAll hasks.plainVars).issued
    · exact Or.inl (hasks.fresh_names hstart (List.of_mem_zip hnew).1).2

theorem simulates_read (target : Address × Int)
    (hasks : Asks library place query read inputTypes vars names next start)
    (hstart : start.Sound) (hissued : ∀ storage, next.Issued storage → start.Issued storage)
    (hpins : ∀ pin ∈ pins, ¬ next.Issued pin.1) (hapart : ∀ pin ∈ pins, pin.1 ∉ read.names)
    {G H : Store → Frames → Prop} {Q : α → β → Prop}
    (hleft : ∀ store frames, Left names pins store frames → H store frames)
    {f : Unit → Run σ α} {g : List (String × Binding) → Run (Scoped σ) β}
    (hlater : ∀ values : List Value, values.length = vars.length →
      (f ()).Simulates settings (Holding next (pins ++ read.names.zip values)) G H Q
        (g (Binding.zip vars values))) :
    (ContractFilter.read target read >>= f).Simulates settings (Holding names pins) G H Q (do
      let inputs ← Operand.interpretAll library query.inputs
      let values ← ContractFilter.ask target query.member inputs.1 (query.outputs.map (·.type))
      let vars ← Run.ofExcept (MemberOutput.interpretAll query.outputs)
      g (Binding.zip vars values)) := by
  have hevaluates := hasks.evaluates settings
  have hfirst :=
    (hevaluates.simulates pins hpins).weaken (fun _ _ h => h) (fun _ _ h => h) hleft
  unfold ContractFilter.read
  rw [bind_assoc]
  apply hfirst.bind
  rintro inputs _ rfl
  rw [hasks.member, hasks.types, bind_assoc]
  have hkept (store : Store) (frames : Frames) (hholding : Holding next pins store frames) :
      H store frames := hleft store frames (hholding.left.of_advances hevaluates.advances)
  have hask : (ContractFilter.ask target query.member inputs (query.outputs.map (·.type)) :
      Run σ _).Simulates settings (Holding next pins) (Holding next pins) H
      (fun values other => other = values ∧ values.length = (query.outputs.map (·.type)).length)
      (ContractFilter.ask target query.member inputs (query.outputs.map (·.type))) :=
    (ContractFilter.steady_ask target query.member inputs _).weaken (fun _ _ h => h)
      (fun _ _ h => h) hkept
  apply hask.bind
  rintro _ values ⟨rfl, hlength⟩
  have hvalues : values.length = vars.length := by
    rw [hlength, ← hasks.length_names, ← hasks.types]
    simp [MemberRead.names]
  have hstorages : (read.names.zip values).map (·.1) = read.names :=
    List.map_fst_zip (by simp [hasks.length_names, hvalues])
  rw [hasks.outputs]
  refine simulates_assignAll hevaluates.advances.sound ?_ ?_ ?_ (hlater values hvalues)
  · intro new hnew hnext
    have hmem : new.1 ∈ read.names := hstorages ▸ List.mem_map_of_mem hnew
    exact (hasks.fresh_names hstart hmem).1 (hissued new.1 hnext)
  · rw [hstorages]
    exact hasks.nodup_names hstart
  · rwa [hstorages]

/-- Questions are asked alike, with inputs from the enclosing body. Behind them everything
that was returned is pinned. -/
theorem simulates_reads (target : Address × Int)
    (hcompiled : Compiled library place queries inputs reads names middle start declared)
    (hspares : Spares middle start declared pins) {G H : Store → Frames → Prop}
    (hleft : ∀ store frames, Left names pins store frames → H store frames)
    {body : Run σ Unit} {rest : List (String × Binding) → Run (Scoped σ) Unit}
    (hbody : ∀ vars values, values.length = vars.length →
      (reads.flatMap MemberRead.names, declared) = start.declareAll vars →
      body.Simulates settings (Holding middle (pins ++ (start.declareAll vars).1.zip values)) G H Eq
        (rest (Binding.zip vars values))) :
    (reads.forM (ContractFilter.read target) >>= fun _ => body).Simulates settings
      (Holding names pins) G H Eq (interpretAll library target queries >>= rest) := by
  induction queries generalizing names start inputs reads pins rest with
  | nil =>
      obtain ⟨rfl, rfl⟩ := Compiler.of_pure_ok hcompiled.ofInputs
      obtain ⟨rfl, rfl⟩ := Compiler.of_pure_ok hcompiled.ofReads
      have hbody := hbody [] [] rfl rfl
      simp only [Names.declareAll, List.zip_nil_left, List.append_nil] at hbody
      exact hbody
  | cons query queries ih =>
      obtain ⟨read, laterReads, laterInputs, inputTypes, vars, next, rfl, hasks, hrest⟩ :=
        hcompiled.of_cons settings
      have hnext := hrest.advances_inputs settings
      rw [interpretAll, List.forM, bind_assoc]
      simp only [bind_assoc, pure_bind]
      -- the outputs are new behind all inputs, so later inputs leave what is pinned alone
      refine simulates_read target hasks hcompiled.startSound
        (fun storage hissued => hcompiled.issued storage (hnext.issued hissued))
        (fun pin hpin hissued => hspares.unissued pin hpin (hnext.issued hissued))
        (hspares.notMem_names hasks hcompiled.startSound hrest.advances_reads) hleft
        (g := fun bindings => interpretAll library target queries >>= fun others =>
          rest (bindings ++ others)) ?_
      intro values hvalues
      refine ih hrest (hspares.append hasks hcompiled.startSound hcompiled.issued values) ?_ ?_
      · intro store frames hlost
        have hevaluates := hasks.evaluates settings
        refine hleft store frames ((hlost.of_advances hevaluates.advances).of_subset ?_)
        exact fun pin hpin => List.mem_append_left _ hpin
      · intro others values' hlength hpair
        have hcount : (start.declareAll vars).1.length = values.length := by
          rw [Names.length_declareAll, hvalues]
        have hall := hbody (vars ++ others) (values ++ values')
          (by rw [List.length_append, List.length_append, hvalues, hlength]) ?_
        · rw [Names.declareAll_append, List.zip_append hcount, ← List.append_assoc,
            Binding.zip_append hvalues] at hall
          rwa [hasks.storages]
        · rw [Names.declareAll_append, ← hpair, ← hasks.storages]
          rfl

/-- Questions are asked alike of the contract that an operand gives. -/
theorem simulates_asks {first : Names} {address : Operand} {contract : ChainExtract.Operand}
    (haddress : Evaluates settings names first (fun value result => result.1 = value)
      contract.evaluate (address.interpret library))
    (hcompiled : Compiled library place queries inputs reads first middle start declared)
    (hspares : Spares middle start declared pins) {G : Store → Frames → Prop} {body : Run σ Unit}
    {rest : List (String × Binding) → Run (Scoped σ) Unit}
    (hbody : ∀ vars values, values.length = vars.length →
      (reads.flatMap MemberRead.names, declared) = start.declareAll vars →
      body.Simulates settings (Holding middle (pins ++ (start.declareAll vars).1.zip values)) G
        (Left names pins) Eq (rest (Binding.zip vars values))) :
    (do
      let target ← ContractFilter.target (← contract.evaluate)
      reads.forM (ContractFilter.read target)
      body : Run σ Unit).Simulates settings (Holding names pins) G (Left names pins) Eq (do
        let target ← ContractFilter.target (← address.interpret library).1
        let bindings ← interpretAll library target queries
        rest bindings) := by
  have hmiddle := hcompiled.advances_inputs settings
  have hleft (store : Store) (frames : Frames) (hlost : Left first pins store frames) :
      Left names pins store frames := hlost.of_advances haddress.advances
  refine (haddress.simulates pins fun pin hpin hissued =>
    hspares.unissued pin hpin (hmiddle.issued hissued)).bind ?_
  rintro _ ⟨value, type⟩ rfl
  refine ((ContractFilter.steady_target value).weaken (fun _ _ h => h) (fun _ _ h => h)
    fun _ _ hholding => hleft _ _ hholding.left).bind ?_
  rintro target _ rfl
  exact simulates_reads target hcompiled hspares hleft hbody

/-- In a filter the outputs are declared in the body that is entered behind the inputs. -/
theorem compiled_enter (settings : Settings σ) (hplain : Plain (declaresAll queries))
    (hsound : names.Sound)
    (hinputs : (compileInputs library place queries).run names = .ok (inputs, middle))
    (hreads : (compileAll queries inputs).run middle.enter = .ok (reads, declared)) :
    Compiled library place queries inputs reads names middle middle.enter declared :=
  ⟨hplain, hsound, hinputs, hreads,
    (advances_compileInputs settings hplain hsound hinputs).sound.enter, fun _ hissued => hissued⟩

end MemberQuery

/-- A body behind reads of contract state, which are removed again however it ends. -/
theorem MemberQuery.evaluates_contract {names first middle declared inner : Names}
    {address : Operand} {contract : ChainExtract.Operand} {queries : List MemberQuery}
    {inputs : List (List ChainExtract.Operand)} {reads : List MemberRead} (hsound : names.Sound)
    (haddress : Evaluates settings names first (fun value result => result.1 = value)
      contract.evaluate (address.interpret library))
    (hcompiled : Compiled library place queries inputs reads first middle middle.enter declared)
    {body : Run σ Unit} {framedBody : Run (Scoped σ) Unit}
    (hbody : Evaluates settings declared inner Eq body framedBody) :
    Evaluates settings names inner.leave Eq (ContractFilter.run contract reads body) (do
      let target ← ContractFilter.target (← address.interpret library).1
      let bindings ← MemberQuery.interpretAll library target queries
      Run.within bindings framedBody) := by
  have hmiddle := hcompiled.advances_inputs settings
  obtain ⟨vars, hvars, hpair⟩ := MemberQuery.of_compileAll_ok hcompiled.plain hcompiled.ofReads
  obtain ⟨hstorages, rfl⟩ := Prod.mk.inj hpair
  have hdeclared := hmiddle.sound.enter.advances_declareAll (plain_map_fst.mp hvars)
  have hinner := hdeclared.trans hbody.advances
  have hfresh (storage : String) (hstorage : storage ∈ reads.flatMap MemberRead.names) :
      ¬ middle.Issued storage ∧ inner.Issued storage := by
    obtain ⟨hnew, hissued⟩ :=
      hmiddle.sound.enter.declareAll_fresh (plain_map_fst.mp hvars) (hstorages ▸ hstorage)
    exact ⟨hnew, hbody.advances.issued hissued⟩
  have hbefore := haddress.advances.trans hmiddle
  refine ⟨hbefore.trans hinner.leave.1, fun pins hpins => ?_⟩
  have hpinsMiddle : ∀ pin ∈ pins, ¬ middle.Issued pin.1 :=
    fun pin hpin hissued => hpins pin hpin (hinner.leave.1.issued hissued)
  have hapart : ∀ pin ∈ pins, pin.1 ∉ reads.flatMap MemberRead.names :=
    fun pin hpin hstorage => hpins pin hpin (hfresh pin.1 hstorage).2
  -- the variables are removed behind all of this, whatever of it has been reached
  have hrun : (ContractFilter.readAndRun contract reads body).Simulates settings
      (Holding names pins) (Holding middle pins) (Left names pins) Eq (do
        let target ← ContractFilter.target (← address.interpret library).1
        let bindings ← MemberQuery.interpretAll library target queries
        Run.within bindings framedBody) := by
    have hspares : MemberQuery.Spares middle middle.enter _ pins :=
      ⟨hpinsMiddle, fun pin hpin =>
        Or.inr fun hissued => hpins pin hpin (hbody.advances.issued hissued)⟩
    refine MemberQuery.simulates_asks haddress hcompiled hspares ?_
    intro others values hlength hsame
    obtain ⟨_, hdeclare⟩ := Prod.mk.inj hsame
    rw [hdeclare] at hbody hdeclared
    refine (hbody.within hdeclared hlength hpins).weaken (fun _ _ h => h) (fun _ _ h => h) ?_
    exact fun _ _ hholding => hholding.left.of_advances hbefore
  refine (hrun.erase ?_ ?_).weaken (fun _ _ h => h) ?_ fun _ _ h => h
  · exact fun _ _ hholding =>
      hholding.eraseAll hmiddle.sound (fun storage hmem => (hfresh storage hmem).1) hapart
  · exact fun _ _ hlost => hlost.eraseAll hsound
      (fun storage hmem hissued => (hfresh storage hmem).1 (hbefore.issued hissued)) hapart
  · exact fun _ _ hholding => hholding.of_frames_eq hinner.leave.2

end ChainExtract.Plan
