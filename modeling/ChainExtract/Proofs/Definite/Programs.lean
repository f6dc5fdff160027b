import ChainExtract.Proofs.Definite.Openings

/-! # Programs read what is set

Whatever a compiled program does, and whichever of its visits fail, nothing is read that is not
set. Each failure of a run is reported where it is met, so what a run reports says what its
steps have failed with.
-/

namespace ChainExtract.Plan

variable {σ : Type} {library : Library} {settings : Settings σ} {start : RunState σ}

theorem watches_emit {place : Option Scope} {names : Names} (record : Record) :
    (Run.emit record).Watches settings start place names :=
  fun _ _ _ hstate => ⟨hstate.cursor, hstate.reports.cons rfl (by simp)⟩

section

/-- Wherever an instruction compiles, its compiled form reads what is set. -/
def Instruction.Definite (library : Library) (settings : Settings σ) (start : RunState σ)
    (instruction : Instruction) : Prop :=
  ∀ ⦃place : Option Scope⦄ ⦃names after : Names⦄ ⦃compiled : ChainExtract.Instruction Empty⦄,
    Plain instruction.declares → names.Sound →
    (instruction.compile library place).run names = .ok (compiled, after) →
    (compiled.execute Empty.elim).Watches settings start place names

/-- Wherever a body compiles, its compiled form reads what is set. -/
def Instruction.AllDefinite (library : Library) (settings : Settings σ) (start : RunState σ)
    (body : List Instruction) : Prop :=
  ∀ ⦃place : Option Scope⦄ ⦃names after : Names⦄ ⦃compiled : List (ChainExtract.Instruction Empty)⦄,
    Plain (Instruction.declaresAll body) → names.Sound →
    (Instruction.compileAll library place body).run names = .ok (compiled, after) →
    (ChainExtract.Instruction.executeAll Empty.elim compiled).Reads settings start place names after

variable {body : List Instruction}

theorem Instruction.definite_blocks (first : Operand) (last : Option Operand)
    (hdefinite : AllDefinite library settings start body) :
    Definite library settings start (.blocks first last body) := by
  intro place names after compiled hplain hsound hcompile
  obtain ⟨lower, upper, code, second, third, inner, rfl, rfl, _, hlower, hupper, hthird, hcode⟩ :=
    reads_of_compile_blocks settings hplain hsound hcompile
  rw [declares, plain_append, plain_append] at hplain
  obtain ⟨_, hsteady⟩ := steady_body settings hplain.2.2 hthird hcode
  have hbody := hdefinite hplain.2.2 hthird.enter hcode
  rw [ChainExtract.Instruction.execute]
  apply (hlower start).watches_bind
  intro lowest
  apply (Run.reads_ofExcept (BlockRange.failsOnly_bound lowest)).watches_bind
  intro first
  apply (hupper start).watches_bind
  intro highest
  exact (Run.reads_ofExcept (BlockRange.failsOnly_bound? highest)).watches_bind fun last =>
    Run.watches_blocks hbody hsteady first last

theorem Instruction.definite_transactions (senders recipients : Option Operand)
    (hdefinite : AllDefinite library settings start body) :
    Definite library settings start (.transactions senders recipients body) := by
  intro place names after compiled hplain hsound hcompile
  obtain ⟨senders?, recipients?, code, second, third, inner, rfl, rfl, _, hfrom, hto, hthird,
    hcode⟩ := reads_of_compile_transactions settings hplain hsound hcompile
  rw [declares, plain_append, plain_append] at hplain
  obtain ⟨_, hsteady⟩ := steady_body settings hplain.2.2 hthird hcode
  have hbody := hdefinite hplain.2.2 hthird.enter hcode
  rw [ChainExtract.Instruction.execute]
  apply (hfrom start).watches_bind
  intro sending
  exact (hto start).watches_bind fun receiving =>
    Run.watches_transactions hbody hsteady sending receiving

theorem Instruction.definite_logEntries (event : String) (parameters : List Parameter)
    (emitters : Option Operand) (hdefinite : AllDefinite library settings start body) :
    Definite library settings start (.logEntries event parameters emitters body) := by
  intro place names after compiled hplain hsound hcompile
  obtain ⟨emitters?, stored, code, second, declared, inner, rfl, rfl, _, hfrom, hsecond, hvars,
    hshape, hstored, hcode⟩ := reads_of_compile_logEntries settings hplain hsound hcompile
  rw [declares, plain_append, plain_append] at hplain
  have hdeclared := (hsecond.enter.advances_declareAll hvars).sound
  have hevaluates : Evaluates settings _ inner _ _ _ :=
    evaluatesAll_interpretAll library Empty.elim body hplain.2.2 hdeclared hcode
  have hbody := hdefinite hplain.2.2 hdeclared hcode
  rw [ChainExtract.Instruction.execute]
  exact (hfrom start).watches_bind fun emitting =>
    Run.watches_logEntries hsecond hvars hshape hstored hevaluates hbody emitting

theorem Instruction.definite_when (condition : Operand)
    (hdefinite : AllDefinite library settings start body) :
    Definite library settings start (.when condition body) := by
  intro place names after compiled hplain hsound hcompile
  obtain ⟨test, code, second, inner, rfl, _, htest, hsecond, hcode⟩ :=
    reads_of_compile_when settings hplain hsound hcompile
  rw [declares, plain_append] at hplain
  have hbody := hdefinite hplain.2 hsecond.enter hcode
  rw [ChainExtract.Instruction.execute]
  exact (htest start).watches_bind fun value => Run.watches_runWhen hbody value

theorem Instruction.definite_contract (address : Operand) (queries : List MemberQuery)
    (hdefinite : AllDefinite library settings start body) :
    Definite library settings start (.contract address queries body) := by
  intro place names after compiled hplain hsound hcompile
  obtain ⟨target, reads, code, declared, inner, rfl, _, _, hopening, hdeclared, hcode⟩ :=
    reads_of_compile_contract settings hplain hsound hcompile
  rw [declares, plain_append, plain_append] at hplain
  have hbody := hdefinite hplain.2.2 hdeclared hcode
  rw [ChainExtract.Instruction.execute]
  exact MemberQuery.watches_contract (hopening start) hbody

theorem Instruction.definite_assign (target : String) (value : Operand) :
    Definite library settings start (.assign target value) := by
  intro place names after compiled hplain hsound hcompile
  rw [declares, plain_append] at hplain
  obtain ⟨source, type, second, hsource, rfl, rfl⟩ := of_compile_assign_ok hcompile
  rw [ChainExtract.Instruction.execute]
  exact (Operand.reads_evaluate value hplain.1 hsound hsource).watches_bind fun result =>
    Run.watches_assign _ result

theorem Instruction.definite_call (method : String) (arguments : List Operand)
    (result : Option String) :
    Definite library settings start (.call method arguments result) := by
  intro place names after compiled hplain hsound hcompile
  rw [declares, plain_append] at hplain
  obtain ⟨operands, types, second, found, storage?, harguments, hresolve, rfl⟩ :=
    of_compile_call_ok hcompile
  rw [ChainExtract.Instruction.execute]
  apply (Operand.reads_evaluateAll arguments hplain.1 hsound harguments).watches_bind
  intro values cursor hstands
  exact (Run.watches_invokeInto found values storage? cursor hstands).bind fun _ =>
    Run.sustains_pure _

theorem Instruction.definite_exportRow (table : String) (columns : List (String × Operand)) :
    Definite library settings start (.exportRow table columns) := by
  intro place names after compiled hplain hsound hcompile
  obtain ⟨operands, hcolumns, rfl⟩ := of_compile_exportRow_ok hcompile
  rw [ChainExtract.Instruction.execute]
  exact (Operand.reads_evaluateCells columns hplain hsound hcolumns).watches_bind fun _ =>
    watches_emit _

theorem Instruction.definite_exportLine (parts : List Operand) :
    Definite library settings start (.exportLine parts) := by
  intro place names after compiled hplain hsound hcompile
  obtain ⟨operands, types, hparts, rfl⟩ := of_compile_exportLine_ok hcompile
  rw [ChainExtract.Instruction.execute]
  exact (Operand.reads_evaluateAll parts hplain hsound hparts).watches_bind fun _ =>
    watches_emit _

theorem Instruction.definite_exportEvent (trace event : Operand) (attributes : List Attribute) :
    Definite library settings start (.exportEvent trace event attributes) := by
  intro place names after compiled hplain hsound hcompile
  rw [declares, plain_append, plain_append] at hplain
  obtain ⟨htraceNames, heventNames, hattributeNames⟩ := hplain
  obtain ⟨first, firstType, second, next, nextType, third, operands, hfirst, hnext, hoperands,
    rfl⟩ := of_compile_exportEvent_ok hcompile
  have htracing : Evaluates settings names second _ _ _ :=
    Operand.evaluates_interpret library place trace htraceNames hsound hfirst
  have hsecond := htracing.advances.sound
  have hnaming : Evaluates settings second third _ _ _ :=
    Operand.evaluates_interpret library place event heventNames hsecond hnext
  have hthird := hnaming.advances.sound
  rw [ChainExtract.Instruction.execute]
  exact (Operand.reads_evaluate trace htraceNames hsound hfirst).watches_bind fun _ =>
    (Operand.reads_evaluate event heventNames hsecond hnext).watches_bind fun _ =>
      (Attribute.reads_evaluateAttributes attributes hattributeNames hthird
        hoperands).watches_bind fun _ => watches_emit _

theorem Instruction.allDefinite_nil : AllDefinite library settings start [] := by
  intro place names after compiled _ _ hcompile
  obtain ⟨rfl, rfl⟩ := Compiler.of_pure_ok hcompile
  rw [ChainExtract.Instruction.executeAll]
  exact Run.reads_pure ()

theorem Instruction.allDefinite_cons {instruction : Instruction}
    (hdefinite : Definite library settings start instruction)
    (hrest : AllDefinite library settings start body) :
    AllDefinite library settings start (instruction :: body) := by
  intro place names after compiled hplain hsound hcompile
  rw [declaresAll, plain_append] at hplain
  obtain ⟨first, middle, others, hfirst, hothers, rfl⟩ := of_compileAll_cons_ok hcompile
  have hstep : Evaluates settings names middle Eq (first.execute Empty.elim)
      (instruction.interpret library) :=
    evaluates_interpret library Empty.elim instruction hplain.1 hsound hfirst
  rw [ChainExtract.Instruction.executeAll]
  exact (hstep.reads (hdefinite hplain.1 hsound hfirst)).bind fun _ =>
    hrest hplain.2 hstep.advances.sound hothers

end

mutual

/-- An instruction that compiles reads what is set, and everything nested in it does. -/
theorem Instruction.watches_execute : ∀ instruction : Instruction,
    Definite library settings start instruction
  | .blocks first last body => definite_blocks first last (reads_executeAll body)
  | .transactions senders recipients body =>
      definite_transactions senders recipients (reads_executeAll body)
  | .logEntries event parameters emitters body =>
      definite_logEntries event parameters emitters (reads_executeAll body)
  | .when condition body => definite_when condition (reads_executeAll body)
  | .contract address queries body => definite_contract address queries (reads_executeAll body)
  | .assign target value => definite_assign target value
  | .call method arguments result => definite_call method arguments result
  | .exportRow table columns => definite_exportRow table columns
  | .exportLine parts => definite_exportLine parts
  | .exportEvent trace event attributes => definite_exportEvent trace event attributes

theorem Instruction.reads_executeAll : ∀ body : List Instruction,
    AllDefinite library settings start body
  | [] => allDefinite_nil
  | instruction :: rest =>
      allDefinite_cons (watches_execute instruction) (reads_executeAll rest)

end

theorem ensures_finish_reports :
    (Program.finish : Run σ Unit).Ensures settings start.ReportsSince
      (fun _ => start.ReportsSince) (fun _ _ => False) start.ReportsSince := by
  have hfinish : (Run.finish .allBlocks : Run σ _).Ensures settings start.ReportsSince
      (fun failure? after => start.ReportsSince after ∧
        ∀ error, failure? = some error → ¬ error.IsUnset)
      (fun _ _ => False) start.ReportsSince := by
    refine fun state hstate => ⟨hstate, fun error hfailure => ?_⟩
    obtain ⟨_, _, rfl⟩ := Folder.unwritten_of_writeAll hfailure
    exact fun h => h
  refine hfinish.bind fun failure? state hstate => ?_
  cases failure? with
  | none => exact hstate.1
  | some error =>
      exact hstate.1.cons rfl fun _ _ heq => by
        cases heq
        exact Or.inl (hstate.2 error rfl)

/-- Of all the failures of a run, which are reported where they are met, only that of a
`readContract` outside of block ranges tells that something was read that is not set. -/
theorem ensures_run_reports {plan : Plan} {program : Program Empty}
    (hcompile : plan.compile library = .ok program) (hplain : Plain plan.declares)
    (hstart : start.cursor = .empty) :
    ((Program.run Empty.elim program).run settings start).Satisfies
      (fun _ after => start.ReportsSince after) (fun _ _ => False) start.ReportsSince := by
  obtain ⟨names, hnames⟩ := exists_run_of_compile hcompile
  have hreads : Run.Reads settings start none _ _ (ChainExtract.Instruction.executeAll _ _) :=
    Instruction.reads_executeAll plan.instructions hplain Names.sound_empty hnames
  have hrun := hreads.watches .empty Cursor.standsAt_empty
  refine Run.Ensures.bind (Run.Ensures.attempt_unit hrun) (fun outcome state hstate => ?_) start
    ⟨⟨hstart, .refl start⟩, Names.stored_empty start.store⟩
  obtain ⟨hwatched, herror⟩ := hstate
  split
  · exact ensures_finish_reports state hwatched.reports
  · exact ensures_finish_reports state hwatched.reports
  next error _ =>
    refine ensures_finish_reports _ (hwatched.reports.cons rfl fun _ _ heq => ?_)
    cases heq
    exact (herror error rfl).imp_right fun h => ⟨rfl, h.2⟩

end ChainExtract.Plan
