import ChainExtract.Proofs.Definite.Programs
import ChainExtract.Proofs.Typing.Soundness

/-! # Points at which all is set

Wherever a run of a compiled plan arrives, the visible variables are stored and the cursor stands
at its place. This is kept from point to point, whichever visits have failed on the way, so what
comes next at a point does not fail for something that is not set.
-/

namespace ChainExtract

variable {σ α : Type} {settings : Settings σ} {state begun : RunState σ} {place : Option Scope}
variable {names after inner : Names}

/-- The cursor stands at the place, and the visible variables are stored. -/
structure RunState.Provides (state : RunState σ) (place : Option Scope) (names : Names) :
    Prop where
  stands : state.cursor.StandsAt place
  stored : names.Stored state.store

theorem RunState.Provides.readable (hstate : state.Provides place names) :
    Readable state names state.cursor state :=
  ⟨⟨rfl, .refl state⟩, hstate.stored⟩

theorem Readable.provides {start : RunState σ} {cursor : Cursor}
    (hstate : Readable start names cursor state) (hstands : cursor.StandsAt place) :
    state.Provides place names :=
  ⟨hstate.cursor ▸ hstands, hstate.stored⟩

theorem RunState.Provides.enter (hstate : state.Provides place names) :
    state.Provides place names.enter :=
  ⟨hstate.stands, hstate.stored.enter⟩

namespace Run

theorem Reads.provides {x : Run σ α} (hx : x.Reads settings state place names after)
    (hstate : state.Provides place names) {result : α} {final : RunState σ}
    (hrun : x.run settings state = .ok result final) : final.Provides place after :=
  ((hx _ hstate.stands).of_ok hstate.readable hrun).provides hstate.stands

theorem Watches.allowedAt {x : Run σ α} (hx : x.Watches settings state place names)
    (hstate : state.Provides place names) {error : Error} {final : RunState σ}
    (hrun : x.run settings state = .failed error final) : error.AllowedAt place := by
  have hends := hx _ hstate.stands state hstate.readable
  rw [hrun] at hends
  exact hends.2

end Run

/-- Everything that a range needs is set again behind each of its turns. -/
theorem BlockRange.Reaches.provides {body : Run σ Unit} {framedBody : Run (Scoped σ) Unit}
    (hbody : ∀ start : RunState σ, body.Reads settings start (some .block) names.enter inner)
    (hsteady : body.Steady settings (Holding names []) Eq framedBody) {first next : Int}
    {last : Option Int} {window : Window} {turning : RunState σ}
    (hreaches : Reaches body first last settings state window next turning)
    (hstate : state.Provides none names) : turning.Provides none names := by
  induction hreaches with
  | start => exact hstate
  | turn _ _ hturn ih =>
      have hreadable := ih.readable
      rw [ih.stands.set.eq_empty] at hreadable
      have hturned := (BlockRange.sustains_turn Run.rangeSteps_readable
        (Run.ensures_blockReadable (hbody _) hsteady) _ _).of_ok hreadable hturn
      exact hturned.provides Cursor.standsAt_empty

namespace Plan

variable {code : List (ChainExtract.Instruction Empty)} {second third : Names}
variable {framedBody : Run (Scoped σ) Unit}

theorem provides_of_begins_blocks {lower : ChainExtract.Operand}
    {upper : Option ChainExtract.Operand}
    (hlower : ∀ start : RunState σ, lower.evaluate.Reads settings start none names second)
    (hupper : ∀ start : RunState σ,
      (ChainExtract.Operand.evaluate? upper).Reads settings start none second third)
    (hbody : ∀ start : RunState σ, (ChainExtract.Instruction.executeAll Empty.elim code).Reads
      settings start (some .block) third.enter inner)
    (hsteady : (ChainExtract.Instruction.executeAll Empty.elim code).Steady settings
      (Holding third []) Eq framedBody)
    (hstate : state.Provides none names)
    (hbegins : (ChainExtract.Instruction.blocks lower upper code).Begins settings state begun) :
    begun.Provides (some .block) third.enter := by
  cases hbegins with
  | @blocks _ _ _ _ _ _ turning fetched _ _ _ _ _ window after block hfirst _ hlast _ hreaches _
      hfetch =>
      have hthird := (hupper _).provides ((hlower _).provides hstate hfirst) hlast
      have hturning := hreaches.provides hbody hsteady hthird
      have hreadable := hturning.readable
      rw [hturning.stands.set.eq_empty] at hreadable
      have hfetched := (BlockRange.upholds_fetch Run.rangeSteps_readable.retrieval _
        _).sustains.of_ok hreadable hfetch
      exact ⟨Cursor.standsAt_atBlock _, hfetched.stored.enter⟩

theorem provides_of_begins_transactions {senders recipients : Option ChainExtract.Operand}
    (hfrom : ∀ start : RunState σ, (evaluateAddresses "transaction senders" senders).Reads settings
      start (some .block) names second)
    (hto : ∀ start : RunState σ, (evaluateAddresses "transaction recipients" recipients).Reads
      settings start (some .block) second third)
    (hbody : ∀ start : RunState σ, (ChainExtract.Instruction.executeAll Empty.elim code).Reads
      settings start (some .transaction) third.enter inner)
    (hsteady : (ChainExtract.Instruction.executeAll Empty.elim code).Steady settings
      (Holding third []) Eq framedBody)
    (hstate : state.Provides (some .block) names)
    (hbegins : (ChainExtract.Instruction.transactions senders recipients code).Begins settings
      state begun) : begun.Provides (some .transaction) third.enter := by
  cases hbegins with
  | transactions hsenders hrecipients _ _ hearlier hcursor =>
      have hthird := (hto _).provides ((hfrom _).provides hstate hsenders) hrecipients
      have hvisited := ((Run.sustains_transactionsReadable (hbody _) hsteady hthird.stands _).of_ok
        hthird.readable hearlier).provides hthird.stands
      exact ⟨hvisited.stands.atTransaction hcursor, hvisited.stored.enter⟩

theorem provides_of_begins_logEntries {emitters : Option ChainExtract.Operand}
    {event stored : EventDecl}
    (hfrom : ∀ start : RunState σ, (evaluateAddresses "log entry addresses" emitters).Reads settings
      start (some .transaction) names second)
    (hsound : second.Sound) (hvars : ∀ var ∈ eventVars event, '#' ∉ var.1.toList)
    (hshape : event.SameShape stored)
    (hstored : stored.parameters.map (·.name) = (second.enter.declareAll (eventVars event)).1)
    (hevaluates : Evaluates settings (second.enter.declareAll (eventVars event)).2 inner Eq
      (ChainExtract.Instruction.executeAll Empty.elim code) framedBody)
    (hbody : ∀ start : RunState σ, (ChainExtract.Instruction.executeAll Empty.elim code).Reads
      settings start (some .logEntry) (second.enter.declareAll (eventVars event)).2 inner)
    (hstate : state.Provides (some .transaction) names)
    (hbegins : (ChainExtract.Instruction.logEntries stored emitters code).Begins settings
      state begun) :
    begun.Provides (some .logEntry) (second.enter.declareAll (eventVars event)).2 := by
  cases hbegins with
  | @logEntries _ _ _ _ _ visited _ _ _ _ _ index hemitters _ _ hearlier hset =>
      have hsecond := (hfrom _).provides hstate hemitters
      have hvisited := ((Run.sustains_logEntriesReadable hsound hvars hshape hstored hevaluates
        (hbody _) hsecond.stands _).of_ok hsecond.readable hearlier).provides hsecond.stands
      obtain ⟨decoded, entered, hentered, hassigned⟩ := Run.of_bind_ok hset
      have hbegun := Run.ensures_beginLogEntry settings hsound hvars hshape hstored hvisited.stands
        index visited hvisited.readable
      simp only [Run.run_bind, hentered, hassigned, Run.run_pure] at hbegun
      obtain ⟨next, hnext, _, hreadable⟩ := hbegun
      exact hreadable.provides hnext

/-- The invariant of the points of a run. -/
structure Point.Ready (library : Library) (point : Point σ) : Prop where
  names : point.names.Sound
  plain : Plain point.part.declares
  compiles : point.part.Compiles library point.place point.names
  provides : point.state.Provides point.place point.names

variable {library : Library}

theorem Instruction.ready_rest {next : Names} {instruction : Instruction} {rest : List Instruction}
    {compiled : ChainExtract.Instruction Empty} {final : RunState σ}
    (hpoint : Point.Ready library ⟨place, names, .instructions (instruction :: rest), state⟩)
    (hcompile : (instruction.compile library place).run names = .ok (compiled, next))
    (hrun : (compiled.execute Empty.elim).run settings state = .ok () final) :
    Point.Ready library ⟨place, next, .instructions rest, final⟩ := by
  obtain ⟨hfirstNames, hrestNames⟩ := plain_append.mp hpoint.plain
  have hevaluates : Evaluates settings names next Eq (compiled.execute Empty.elim)
      (instruction.interpret library) :=
    Instruction.evaluates_interpret library Empty.elim instruction hfirstNames hpoint.names hcompile
  have hreads : (compiled.execute Empty.elim).Reads settings state place names next :=
    hevaluates.reads (Instruction.watches_execute instruction hfirstNames hpoint.names hcompile)
  obtain ⟨code, last, hall⟩ := hpoint.compiles
  rw [Instruction.compileAll, Compiler.run_bind_of_ok hcompile] at hall
  obtain ⟨others, final, hothers, _⟩ := Compiler.of_bind_ok hall
  exact {
    names := hevaluates.advances.sound
    plain := hrestNames
    compiles := ⟨others, final, hothers⟩
    provides := hreads.provides hpoint.provides hrun }

/-- Each time that an instruction begins its body, all is set that is visible to the body. -/
theorem Instruction.ready_body {next opened : Names} {instruction : Instruction}
    {rest : List Instruction} {compiled : ChainExtract.Instruction Empty}
    (hpoint : Point.Ready library ⟨place, names, .instructions (instruction :: rest), state⟩)
    (hcompile : (instruction.compile library place).run names = .ok (compiled, next))
    (hopening : (instruction.opening library place).run names = .ok ((), opened))
    (hbegins : compiled.Begins settings state begun) :
    Point.Ready library
      ⟨instruction.bodyPlace place, opened, .instructions instruction.body, begun⟩ := by
  have hnests := nests_of_begins hcompile hbegins
  have hplain := (plain_append.mp hpoint.plain).1
  have hsound : names.Sound := hpoint.names
  have hstate : state.Provides place names := hpoint.provides
  cases instruction with
  | blocks first last body =>
      obtain ⟨lower, upper, code, second, third, inner, rfl, rfl, hopens, hlower, hupper, hthird,
        hcode⟩ := reads_of_compile_blocks settings hplain hsound hcompile
      cases hopening.symm.trans hopens
      rw [Instruction.declares, plain_append, plain_append] at hplain
      obtain ⟨_, hsteady⟩ := steady_body settings hplain.2.2 hthird hcode
      exact ⟨hthird.enter, hplain.2.2, ⟨code, inner, hcode⟩,
        provides_of_begins_blocks hlower hupper
          (fun _ => reads_executeAll body hplain.2.2 hthird.enter hcode) hsteady hstate hbegins⟩
  | transactions senders recipients body =>
      obtain ⟨senders?, recipients?, code, second, third, inner, rfl, rfl, hopens, hfrom, hto,
        hthird, hcode⟩ := reads_of_compile_transactions settings hplain hsound hcompile
      cases hopening.symm.trans hopens
      rw [Instruction.declares, plain_append, plain_append] at hplain
      obtain ⟨_, hsteady⟩ := steady_body settings hplain.2.2 hthird hcode
      exact ⟨hthird.enter, hplain.2.2, ⟨code, inner, hcode⟩,
        provides_of_begins_transactions hfrom hto
          (fun _ => reads_executeAll body hplain.2.2 hthird.enter hcode) hsteady hstate hbegins⟩
  | logEntries event parameters emitters body =>
      obtain ⟨emitters?, stored, code, second, declared, inner, rfl, rfl, hopens, hfrom, hsecond,
        hvars, hshape, hstored, hcode⟩ :=
        reads_of_compile_logEntries settings hplain hsound hcompile
      cases hopening.symm.trans hopens
      rw [Instruction.declares, plain_append, plain_append] at hplain
      have hdeclared := (hsecond.enter.advances_declareAll hvars).sound
      have hevaluates : Evaluates settings _ inner _ _ _ :=
        evaluatesAll_interpretAll library Empty.elim body hplain.2.2 hdeclared hcode
      exact ⟨hdeclared, hplain.2.2, ⟨code, inner, hcode⟩,
        provides_of_begins_logEntries hfrom hsecond hvars hshape hstored hevaluates
          (fun _ => reads_executeAll body hplain.2.2 hdeclared hcode) hstate hbegins⟩
  | «when» condition body =>
      obtain ⟨test, code, second, inner, rfl, hopens, htest, hsecond, hcode⟩ :=
        reads_of_compile_when settings hplain hsound hcompile
      cases hopening.symm.trans hopens
      rw [Instruction.declares, plain_append] at hplain
      cases hbegins with
      | «when» hrun =>
          exact ⟨hsecond.enter, hplain.2, ⟨code, inner, hcode⟩,
            ((htest _).provides hstate hrun).enter⟩
  | contract address queries body =>
      obtain ⟨target, reads, code, declared, inner, rfl, _, hopens, hreads, hdeclared, hcode⟩ :=
        reads_of_compile_contract settings hplain hsound hcompile
      cases hopening.symm.trans hopens
      rw [Instruction.declares, plain_append, plain_append] at hplain
      cases hbegins with
      | contract hrun =>
          exact ⟨hdeclared, hplain.2.2, ⟨code, inner, hcode⟩, (hreads _).provides hstate hrun⟩
  | assign | call | exportRow | exportLine | exportEvent => cases hnests

theorem ready_inputs {next third : Names} {address : Operand} {earlier later : List MemberQuery}
    {query : MemberQuery} {body rest : List Instruction} {contract target : ChainExtract.Operand}
    {inputs : List (List ChainExtract.Operand)} {reads : List MemberRead} {asked : RunState σ}
    (hpoint : Point.Ready library
      ⟨place, names, .instructions (.contract address (earlier ++ query :: later) body :: rest),
        state⟩)
    (hcompile : ((Instruction.contract address (earlier ++ query :: later) body).compile library
      place).run names = .ok (.contract contract reads code, next))
    (haddress : (Operand.compileTyped library place "smart contract" .address address).run names =
      .ok (target, second))
    (hinputs : (MemberQuery.compileInputs library place earlier).run second = .ok (inputs, third))
    (hreads : (do
      let target ← ContractFilter.target (← contract.evaluate)
      (reads.take earlier.length).forM (ContractFilter.read target)).run settings state =
        .ok () asked) :
    Point.Ready library ⟨place, third, .operands (query.inputs.map (.plain, ·)), asked⟩ := by
  have hplain := (plain_append.mp hpoint.plain).1
  obtain ⟨rfl, hinputNames, hfits, opened, declared, hcompiled⟩ :=
    Part.of_inputs settings hplain hpoint.names hcompile haddress hinputs
  rw [Instruction.declares, plain_append] at hplain
  have hinside : place ≠ none := by
    rintro rfl
    cases Compiler.contains_of_requirePlace_bind_ok (by rwa [Instruction.compile] at hcompile)
  have hcontract : contract.evaluate.Reads settings state place names second :=
    Operand.reads_typed hplain.1 hpoint.names haddress
  have hasks := MemberQuery.reads_asks hinside hcontract hcompiled
  exact ⟨(hcompiled.advances_inputs settings).sound, hinputNames, hfits,
    hasks.provides hpoint.provides hreads⟩

theorem ready_operands {next : Names} {use : Use} {operand : Operand} {rest : List (Use × Operand)}
    {compiled : ChainExtract.Operand} {type : ValueType} {value : Value} {final : RunState σ}
    (hpoint : Point.Ready library ⟨place, names, .operands ((use, operand) :: rest), state⟩)
    (hcompile : (operand.compile library place).run names = .ok ((compiled, type), next))
    (hrun : compiled.evaluate.run settings state = .ok value final) :
    Point.Ready library ⟨place, next, .operands rest, final⟩ := by
  obtain ⟨hfirstNames, hrestNames⟩ := plain_append.mp hpoint.plain
  obtain ⟨last, _, _, _, hcompile', _, hrest⟩ := hpoint.compiles
  obtain ⟨hpair, rfl⟩ := Prod.mk.inj (Except.ok.inj (hcompile.symm.trans hcompile'))
  have hevaluates : Evaluates settings names next _ compiled.evaluate (operand.interpret library) :=
    Operand.evaluates_interpret library place operand hfirstNames hpoint.names hcompile
  have hreads : compiled.evaluate.Reads settings state place names next :=
    Operand.reads_evaluate operand hfirstNames hpoint.names hcompile
  exact ⟨hevaluates.advances.sound, hrestNames, ⟨last, hrest⟩,
    hreads.provides hpoint.provides hrun⟩

variable {point : Point σ}

/-- The invariant is kept from point to point. -/
theorem Point.Ready.leads {target : Point σ} (hpoint : point.Ready library)
    (hleads : Leads library settings point target) : target.Ready library := by
  cases hleads with
  | instruction hcompile hrun => exact Instruction.ready_rest hpoint hcompile hrun
  | body hcompile hopening hbegins => exact Instruction.ready_body hpoint hcompile hopening hbegins
  | uses =>
      obtain ⟨hplain, hcompiles⟩ := Part.of_uses hpoint.plain hpoint.compiles
      exact ⟨hpoint.names, hplain, hcompiles, hpoint.provides⟩
  | inputs hcompile haddress hinputs hreads =>
      exact ready_inputs hpoint hcompile haddress hinputs hreads
  | operand hcompile hrun => exact ready_operands hpoint hcompile hrun
  | parts =>
      obtain ⟨hplain, hcompiles⟩ := Part.of_parts hpoint.plain hpoint.compiles
      exact ⟨hpoint.names, hplain, hcompiles, hpoint.provides⟩

theorem Point.ready_of_arrives {plan : Plan} {program : Program Empty}
    (hcompile : plan.compile library = .ok program) (hplain : Plain plan.declares)
    {start : RunState σ} (hstart : start.cursor = .empty)
    (harrives : Arrives library settings plan start point) : point.Ready library := by
  induction harrives with
  | refl =>
      obtain ⟨after, hall⟩ := exists_run_of_compile hcompile
      exact ⟨Names.sound_empty, hplain, ⟨program, after, hall⟩,
        hstart ▸ Cursor.standsAt_empty, Names.stored_empty start.store⟩
  | tail _ hleads ih => exact ih.leads hleads

/-- All that is visible at the point is stored, and the items that can be read there are at the
cursor. What comes next fails only in a way that is allowed there. -/
structure Point.Definite (library : Library) (settings : Settings σ) (point : Point σ) :
    Prop where
  visible : ∀ name declared, point.names.find? name = some declared →
    ∃ value, point.state.store.get? declared.storage = some value
  present : ∀ scope, point.place.any scope.visibleIn = true →
    point.state.cursor.hasItem scope = true
  instruction : ∀ instruction rest, point.part = .instructions (instruction :: rest) →
    ∃ compiled next, (instruction.compile library point.place).run point.names =
        .ok (compiled, next) ∧
      ∀ error after, (compiled.execute Empty.elim).run settings point.state = .failed error after →
        error.AllowedAt point.place
  operand : ∀ use operand rest, point.part = .operands ((use, operand) :: rest) →
    ∃ compiled type next, (operand.compile library point.place).run point.names =
        .ok ((compiled, type), next) ∧
      ∀ error after, compiled.evaluate.run settings point.state = .failed error after →
        error.AllowedAt point.place

theorem Point.Ready.definite (hpoint : point.Ready library) : point.Definite library settings := by
  have hplain := hpoint.plain
  have hcompiles := hpoint.compiles
  refine ⟨?_, hpoint.provides.stands.present, ?_, ?_⟩
  · intro name declared hfind
    obtain ⟨frames, hholding⟩ := hpoint.provides.stored
    obtain ⟨value, _, hvalue⟩ := hholding.framed.find?_some hfind
    exact ⟨value, hvalue⟩
  · intro instruction rest hpart
    rw [hpart] at hplain hcompiles
    obtain ⟨code, last, hall⟩ := hcompiles
    obtain ⟨compiled, next, hcompile, _⟩ := Compiler.of_bind_ok hall
    have hwatches : (compiled.execute Empty.elim).Watches settings point.state _ _ :=
      Instruction.watches_execute instruction (plain_append.mp hplain).1 hpoint.names hcompile
    exact ⟨compiled, next, hcompile, fun _ _ hrun => hwatches.allowedAt hpoint.provides hrun⟩
  · intro use operand rest hpart
    rw [hpart] at hplain hcompiles
    obtain ⟨_, compiled, type, next, hcompile, _⟩ := hcompiles
    have hreads : compiled.evaluate.Reads settings point.state _ _ _ :=
      Operand.reads_evaluate operand (plain_append.mp hplain).1 hpoint.names hcompile
    exact ⟨compiled, type, next, hcompile,
      fun _ _ hrun => hreads.watches.allowedAt hpoint.provides hrun⟩

/-- A compiled plan reads what is set. Wherever its run arrives, nothing is missing for what comes
next. Of all the failures of the run, which are reported where they are met, only that of a
`readContract` outside of block ranges tells that something was read that is not set. -/
theorem reads_set_of_compile (library : Library) {plan : Plan} {program : Program Empty}
    (hcompile : plan.compile library = .ok program) (hplain : Plain plan.declares)
    (settings : Settings σ) {start : RunState σ} (hstart : start.cursor = .empty) :
    (∀ point, Arrives library settings plan start point → point.Definite library settings) ∧
      ((Program.run Empty.elim program).run settings start).Satisfies
        (fun _ after => start.ReportsSince after) (fun _ _ => False) start.ReportsSince := by
  refine ⟨fun point harrives => ?_, ensures_run_reports hcompile hplain hstart⟩
  exact (Point.ready_of_arrives hcompile hplain hstart harrives).definite

/-- A plan that divides by the distance to the second block, where there is no ratio to export. -/
def ratioPlan : Plan where
  outputs := []
  instructions :=
    [.blocks (.literal (.scalar (.integer 1))) (some (.literal (.scalar (.integer 3))))
      [.call "subtract" [.chain "block.number", .literal (.scalar (.integer 2))] (some "distance"),
        .call "divide" [.literal (.scalar (.integer 6)), .stored "distance"] (some "ratio"),
        .exportLine [.stored "ratio"]]]

/-- The block behind the one that fails finds its variables again. -/
theorem reads_set_of_compile_ratio :
    ∃ program after, ratioPlan.compile .standard = .ok program ∧ Plain ratioPlan.declares ∧
      BlockRange.forkingStart.cursor = .empty ∧
      (Program.run Empty.elim program).run pausableSettings BlockRange.forkingStart =
        .ok () after ∧
      after.reports.map (·.1) = ["error processing block 2"] ∧
      BlockRange.forkingStart.ReportsSince after ∧
      ∃ names begun body,
        Arrives .standard pausableSettings ratioPlan BlockRange.forkingStart
          ⟨some .block, names, .instructions body, begun⟩ ∧
        Point.Definite .standard pausableSettings ⟨some .block, names, .instructions body, begun⟩ := by
  obtain ⟨program, hcompile, hok, hreports⟩ : ∃ program,
      ratioPlan.compile .standard = .ok program ∧
      ((Program.run Empty.elim program).run pausableSettings BlockRange.forkingStart).isOk = true ∧
      ((Program.run Empty.elim program).run pausableSettings
        BlockRange.forkingStart).last.reports.map (·.1) = ["error processing block 2"] :=
    ⟨_, rfl, by decide +kernel, by decide +kernel⟩
  have hplain : Plain ratioPlan.declares := by
    unfold Plain
    decide
  obtain ⟨block, window, fetched, _, hfetch⟩ := exists_fetched
  have hrange : Leads .standard pausableSettings
      ⟨none, {}, .instructions ratioPlan.instructions, BlockRange.forkingStart⟩
      ⟨some .block, _, .instructions _, _⟩ :=
    .body rfl rfl (.blocks rfl rfl rfl rfl .start rfl hfetch)
  have harrives := Relation.ReflTransGen.refl.tail hrange
  have hstart : BlockRange.forkingStart.cursor = .empty := rfl
  obtain ⟨hpoints, hends⟩ := reads_set_of_compile .standard hcompile hplain pausableSettings hstart
  rw [Outcome.eq_ok_last hok] at hends
  exact ⟨program, _, hcompile, hplain, rfl, Outcome.eq_ok_last hok, hreports, hends, _, _, _,
    harrives, hpoints _ harrives⟩

end Plan

end ChainExtract
