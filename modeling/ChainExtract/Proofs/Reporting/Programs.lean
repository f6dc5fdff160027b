import ChainExtract.Proofs.Reporting.Filters

/-! # Programs and failures

A program never fails. However its instructions end, the sinks end the run once and the
connection is closed; each failure has been reported once, where it was met, and behind one that
ends the run nothing else happens.
-/

namespace ChainExtract

open Reporting Traced

variable {σ : Type} {settings : Settings σ} {start : RunState σ}

namespace RunState

/-- The state in which the sinks have ended the run. -/
def exported (state : RunState σ) : RunState σ :=
  { state with
    sinks := (Sink.finishAll state.sinks .allBlocks).2
    folder := (state.folder.writeAll (Sink.finishAll state.sinks .allBlocks).1).1 }

/-- The failure of the sinks to end the run. -/
def exportFailure? (state : RunState σ) : Option Error :=
  (state.folder.writeAll (Sink.finishAll state.sinks .allBlocks).1).2

/-- How the export at the end of the run ends. -/
def lastExport (state : RunState σ) : Ending σ :=
  ⟨.lastExport, state.exportFailure?.elim (.ok ()) .error, state.exported⟩

/-- The end of a run: the sinks have ended it once, a failure to do so has been reported, and the
connection has been closed. -/
def finished (settings : Settings σ) (state : RunState σ) : RunState σ :=
  { state.exportFailure?.elim state.exported fun error =>
      Run.reported "error exporting data" error settings state.exported with
    closed := true
    cursor := {} }

theorem isOrdinary_of_exportFailure? {state : RunState σ} {error : Error}
    (hfailure : state.exportFailure? = some error) : error.IsOrdinary := by
  obtain ⟨_, _, rfl⟩ := Folder.unwritten_of_writeAll hfailure
  trivial

theorem isOrdinary_of_lastExport {state : RunState σ} {error : Error}
    (houtcome : state.lastExport.outcome = .error error) : error.IsOrdinary := by
  unfold lastExport at houtcome
  cases hfailure : state.exportFailure? with
  | none => simp [hfailure] at houtcome
  | some failure =>
      obtain rfl : failure = error := by simpa [hfailure] using houtcome
      exact isOrdinary_of_exportFailure? hfailure

theorem finished_chain (state : RunState σ) : (state.finished settings).chain = state.chain := by
  unfold finished
  cases state.exportFailure? <;> rfl

theorem finished_store (state : RunState σ) : (state.finished settings).store = state.store := by
  unfold finished
  cases state.exportFailure? <;> rfl

/-- The end of a run enters nothing into the journal but its own failure. -/
theorem finished_journal (state : RunState σ) : (state.finished settings).journal =
    (state.lastExport.report?.toList.map fun report => .reported report.1 report.2) ++
      state.journal := by
  unfold finished Ending.report? lastExport
  cases hfailure : state.exportFailure? with
  | none => rfl
  | some error =>
      have hordinary := isOrdinary_of_exportFailure? hfailure
      cases error <;> first | rfl | exact hordinary.elim

theorem finished_reports (state : RunState σ) : (state.finished settings).reports =
    state.reports ++ state.lastExport.report?.toList := by
  rw [reports, finished_journal, List.reverse_append, List.filterMap_append]
  cases state.lastExport.report? <;> rfl

end RunState

namespace Reporting

theorem passing_report? {cause : Error} {later : List (Ending σ)}
    (hpassing : ∀ ending ∈ later, ending.outcome = .error (.aborted cause)) :
    later.filterMap Ending.report? = [] := by
  rw [List.filterMap_eq_nil_iff]
  intro ending hending
  rw [Ending.report?, hpassing ending hending]

/-- What has been reported up to an abort is what has been recorded. -/
theorem Halted.reports {cause : Error} {history : List (Ending σ)} {state : RunState σ}
    (hhalted : Halted settings start cause history state) :
    state.reports = start.reports ++ history.filterMap Ending.report? := by
  obtain ⟨before, fatal, later, rfl, hat⟩ := hhalted
  have hreport : fatal.report? = some (fatal.task.message cause, cause) := by
    have hends := hat.ends
    rw [Ending.report?, hat.outcome]
    cases cause <;> first | rfl | exact hends.elim
  have hreports := RunState.reports_eq_of_journal hat.dismantled.journal
  rw [hreports, RunState.reports_reported, hat.calm.reports]
  simp [hreport, passing_report? hat.passing]

theorem Calm.not_isFatal {history : List (Ending σ)} {state : RunState σ}
    (hcalm : Calm settings start history state) {ending : Ending σ} (hending : ending ∈ history)
    {error : Error} (hfailure : ending.outcome = .error error) : ¬ error.IsFatal settings := by
  obtain ⟨hordinary, habort⟩ := hcalm.passed ending hending error hfailure
  rw [hordinary.isFatal_iff, habort]
  exact Bool.false_ne_true

end Reporting

namespace Program

/-- How the top-level instructions have ended: calmly, with a failure that has not been reported
yet, or by an abort. -/
inductive Course (settings : Settings σ) (start : RunState σ) :
    Except Error Unit → List (Ending σ) → RunState σ → Prop
  | calm {history : List (Ending σ)} {after : RunState σ} (hcalm : Calm settings start history after) :
      Course settings start (.ok ()) history after
  | failed {error : Error} {earlier : List (Ending σ)} {after : RunState σ}
      (hordinary : error.IsOrdinary) (hcalm : Calm settings start earlier after) :
      Course settings start (.error error) (earlier ++ [⟨.instruction, .error error, after⟩]) after
  | aborted {cause : Error} {history : List (Ending σ)} {after : RunState σ}
      (hhalted : Halted settings start cause history after) :
      Course settings start (.error (.aborted cause)) history after

theorem ensures_traceInstructions (program : Program Empty) :
    (traceInstructions program).Ensures settings (Calm settings start)
      (fun _ => Calm settings start) (fun error => Course settings start (.error error))
      (Calm settings start) := by
  induction program with
  | nil => exact ensures_pure fun _ _ hcalm => hcalm
  | cons instruction rest ih =>
      rw [traceInstructions]
      refine (Instruction.complies_trace instruction).attempt.bind fun outcome => ?_
      refine (ensures_record .instruction outcome).bind fun _ => ?_
      cases outcome with
      | ok =>
          refine Ensures.bind (ensures_lift fun history state hrecorded => ?_) fun _ => ih
          obtain ⟨earlier, rfl, hcalm⟩ := hrecorded
          exact Calm.append_ok hcalm (by simp)
      | error error =>
          refine Ensures.bind (Q := fun _ _ _ => False)
            (ensures_lift fun history state hrecorded => ?_) fun _ _ _ hnever => hnever.elim
          obtain ⟨earlier, rfl, ⟨hordinary, hcalm⟩ | ⟨cause, rfl, hhalted⟩⟩ := hrecorded
          · exact .failed hordinary hcalm
          · exact .aborted (hhalted.append (by simp))

/-- The failure of an instruction is reported, unless that has been done where it was met. -/
def concluded (settings : Settings σ) (outcome : Except Error Unit) (state : RunState σ) :
    RunState σ :=
  match outcome with
  | .ok () | .error (.aborted _) => state
  | .error error => Run.reported "error during program execution" error settings state

theorem concluded_of_isOrdinary {error : Error} (hordinary : error.IsOrdinary)
    (state : RunState σ) : concluded settings (.error error) state =
      Run.reported (Task.instruction.message error) error settings state := by
  cases error <;> first | rfl | exact hordinary.elim

namespace Course

variable {outcome : Except Error Unit} {history : List (Ending σ)} {middle : RunState σ}

theorem inside (hcourse : Course settings start outcome history middle) :
    ∀ ending ∈ history, ending.task ≠ .lastExport := by
  cases hcourse with
  | calm hcalm => exact hcalm.inside
  | failed _ hcalm =>
      intro ending hending
      rcases List.mem_append.mp hending with hearlier | hlast
      · exact hcalm.inside ending hearlier
      · obtain rfl := List.mem_singleton.mp hlast
        simp
  | aborted hhalted =>
      obtain ⟨before, fatal, later, rfl, hat⟩ := hhalted
      intro ending hending
      rcases List.mem_append.mp hending with hbefore | hlater
      · exact hat.calm.inside ending hbefore
      · exact hat.inside ending hlater

theorem reports (hcourse : Course settings start outcome history middle) :
    (concluded settings outcome middle).reports =
      start.reports ++ history.filterMap Ending.report? := by
  cases hcourse with
  | calm hcalm => exact hcalm.reports
  | @failed error earlier _ hordinary hcalm =>
      have hreport : Ending.report? ⟨.instruction, .error error, middle⟩ =
          some (Task.instruction.message error, error) := by
        cases error <;> first | rfl | exact hordinary.elim
      rw [concluded_of_isOrdinary hordinary, RunState.reports_reported, hcalm.reports]
      simp [hreport]
  | aborted hhalted => exact hhalted.reports

/-- Behind the first failure that ends the run the tasks around it are left, one after the
other. -/
theorem of_isFatal (hcourse : Course settings start outcome history middle)
    (hfatal : ∃ ending ∈ history, ∃ error, ending.outcome = .error error ∧
      error.IsFatal settings) :
    ∃ before fatal later cause, history = before ++ fatal :: later ∧
      (∀ ending ∈ before, ∀ error, ending.outcome = .error error → ¬ error.IsFatal settings) ∧
      fatal.outcome = .error cause ∧ cause.IsFatal settings ∧
      (∀ ending ∈ later, ending.outcome = .error (.aborted cause)) ∧
      (Run.reported (fatal.task.message cause) cause settings fatal.state).Dismantled
        (concluded settings outcome middle) := by
  obtain ⟨ending, hending, error, hfailure, hends⟩ := hfatal
  cases hcourse with
  | calm hcalm => exact (hcalm.not_isFatal hending hfailure hends).elim
  | @failed failure earlier _ hordinary hcalm =>
      rcases List.mem_append.mp hending with hearlier | hlast
      · exact (hcalm.not_isFatal hearlier hfailure hends).elim
      · obtain rfl := List.mem_singleton.mp hlast
        cases hfailure
        refine ⟨earlier, _, [], _, rfl, fun _ h _ => hcalm.not_isFatal h, rfl, hends, by simp, ?_⟩
        rw [concluded_of_isOrdinary hordinary]
        exact .refl _
  | aborted hhalted =>
      obtain ⟨before, fatal, later, rfl, hat⟩ := hhalted
      exact ⟨before, fatal, later, _, rfl, fun _ h _ => hat.calm.not_isFatal h, hat.outcome,
        hat.ends, hat.passing, hat.dismantled⟩

end Course

theorem run_finish (state : RunState σ) :
    (finish : Run σ Unit).run settings state = .ok () (state.finished settings) := by
  have hexport : (Run.finish .allBlocks).run settings state =
      .ok state.exportFailure? state.exported := rfl
  rw [finish, Run.run_bind, hexport, RunState.finished]
  cases state.exportFailure? <;> rfl

variable {program : Program Empty}

theorem run_of_attempt {outcome : Except Error Unit} {middle : RunState σ}
    (hinstructions : (Instruction.executeAll Empty.elim program).attempt.run settings start =
      .ok outcome middle) :
    (run Empty.elim program).run settings start =
      .ok () ((concluded settings outcome middle).finished settings) := by
  rw [run, complete, Run.run_bind, hinstructions]
  cases outcome with
  | ok => exact run_finish middle
  | error error =>
      rw [← run_finish]
      cases error <;> rfl

theorem endings_of_attempt {outcome : Except Error Unit} {middle : RunState σ}
    (hinstructions : (Instruction.executeAll Empty.elim program).attempt.run settings start =
      .ok outcome middle) :
    (trace program).endings settings start =
      (traceInstructions program).endings settings start ++
        [(concluded settings outcome middle).lastExport] := by
  have hfirst : (traceInstructions program : Traced σ Unit).attempt.run.run settings start =
      .ok outcome middle := by
    rw [run_attempt, run_traceInstructions, hinstructions]
  rw [trace, endings_bind_of_ok hfirst]
  congr 1
  cases outcome with
  | ok => rfl
  | error error => cases error <;> rfl

/-- How the run of a program goes: it does not end, or it ends behind its instructions. -/
theorem cases_run (settings : Settings σ) (program : Program Empty) (start : RunState σ) :
    (∃ after, (run Empty.elim program).run settings start = .unfinished (s := after) ∧
      Calm settings start ((trace program).endings settings start) after) ∨
    ∃ outcome history middle,
      (run Empty.elim program).run settings start =
        .ok () ((concluded settings outcome middle).finished settings) ∧
      (trace program).endings settings start =
        history ++ [(concluded settings outcome middle).lastExport] ∧
      Course settings start outcome history middle := by
  have hends := ensures_traceInstructions program [] start (calm_nil settings start)
  rw [run_traceInstructions, List.nil_append] at hends
  cases hrun : (Instruction.executeAll Empty.elim program).run settings start with
  | ok result middle =>
      rw [hrun] at hends
      have hattempt : (Instruction.executeAll Empty.elim program).attempt.run settings start =
          .ok (.ok result) middle := by rw [Run.run_attempt, hrun]
      exact Or.inr ⟨_, _, _, run_of_attempt hattempt, endings_of_attempt hattempt, .calm hends⟩
  | failed error middle =>
      rw [hrun] at hends
      have hattempt : (Instruction.executeAll Empty.elim program).attempt.run settings start =
          .ok (.error error) middle := by rw [Run.run_attempt, hrun]
      exact Or.inr ⟨_, _, _, run_of_attempt hattempt, endings_of_attempt hattempt, hends⟩
  | unfinished =>
      rw [hrun] at hends
      refine Or.inl ⟨_, by rw [run, complete, Run.run_bind, Run.run_attempt, hrun], ?_⟩
      rwa [trace, endings_bind_of_not_ok]
      rw [run_attempt, run_traceInstructions, Run.run_attempt, hrun]
      rfl

/-- What has happened behind a task whose failure has ended the run. -/
structure StopsAt (settings : Settings σ) (fatal : Ending σ) (cause : Error)
    (later : List (Ending σ)) (after : RunState σ) : Prop where
  outcome : fatal.outcome = .error cause
  ends : cause.IsFatal settings
  chain : after.chain = fatal.state.chain
  /-- Variables have at most been removed. -/
  store : ∃ names, after.store = fatal.state.store.eraseAll names
  /-- Nothing has been requested, delivered, exported or assigned. The failure has been reported,
  and after it at most one other, that of the last export. -/
  journal : after.journal =
    ((later.filterMap Ending.report?).reverse.map fun report => .reported report.1 report.2) ++
      .reported (fatal.task.message cause) cause :: fatal.state.journal
  once : (later.filterMap Ending.report?).length ≤ 1
  /-- The abort has passed all tasks around. -/
  passing : ∀ ending ∈ later, ending.outcome = .error (.aborted cause) ∨
    ending.task = .lastExport ∧ ∀ error, ending.outcome = .error error → error.IsOrdinary

/-- How a program deals with failures. -/
structure FollowsPolicy (settings : Settings σ) (program : Program Empty) (start : RunState σ) :
    Prop where
  traced : (trace program : Traced σ Unit).run = run Empty.elim program
  succeeds : ∀ error after, (run Empty.elim program).run settings start ≠ .failed error after
  /-- However the instructions end, the sinks end the run once, and the connection is closed. -/
  finishes : ∀ outcome middle,
    (Instruction.executeAll Empty.elim program).attempt.run settings start = .ok outcome middle →
      (run Empty.elim program).run settings start =
        .ok () ((concluded settings outcome middle).finished settings)
  exportsOnce : ∀ after, (run Empty.elim program).run settings start = .ok () after →
    ∃ history last, (trace program).endings settings start = history ++ [last] ∧
      last.task = .lastExport ∧ ∀ ending ∈ history, ending.task ≠ .lastExport
  /-- What is reported are the failures of tasks that are no aborts, each once and in order. -/
  reports : ((run Empty.elim program).run settings start).last.reports =
    start.reports ++ ((trace program).endings settings start).filterMap Ending.report?
  counts : ((run Empty.elim program).run settings start).last.reports.length =
    start.reports.length + ((trace program).endings settings start).countP Ending.hasFailed
  /-- Behind the first failure that ends the run nothing else happens. -/
  stops : ∀ ending ∈ (trace program).endings settings start, ∀ error,
    ending.outcome = .error error → error.IsFatal settings →
      ∃ before fatal cause later after,
        (trace program).endings settings start = before ++ fatal :: later ∧
        (∀ earlier ∈ before, ∀ failure, earlier.outcome = .error failure →
          ¬ failure.IsFatal settings) ∧
        (run Empty.elim program).run settings start = .ok () after ∧
        StopsAt settings fatal cause later after
  /-- An instruction that aborts has reported the cause, and has done nothing since but leave. -/
  aborts : ∀ (instruction : Instruction Empty) (state after : RunState σ) cause,
    (instruction.execute Empty.elim).run settings state = .failed (.aborted cause) after →
      Halted settings state cause (instruction.trace.endings settings state) after ∧
        (settings.abortOnFailure = false → ∃ number depth, cause = .discontinuity number depth)
  /-- A lost chain is reported once. -/
  lostOnce : ∀ ending ∈ (trace program).endings settings start, ∀ number depth,
    ending.outcome = .error (.discontinuity number depth) →
      ∃ before later, (trace program).endings settings start = before ++ ending :: later ∧
        ∀ other ∈ before ++ later, ∀ number depth,
          other.outcome ≠ .error (.discontinuity number depth)

theorem reports_run (settings : Settings σ) (program : Program Empty) (start : RunState σ) :
    ((run Empty.elim program).run settings start).last.reports =
      start.reports ++ ((trace program).endings settings start).filterMap Ending.report? := by
  rcases cases_run settings program start with
    ⟨_, hrun, hcalm⟩ | ⟨outcome, history, middle, hrun, hendings, hcourse⟩
  · rw [hrun]
    exact hcalm.reports
  · rw [hrun, hendings, List.filterMap_append, ← List.append_assoc, ← hcourse.reports]
    show (RunState.finished settings _).reports = _
    rw [RunState.finished_reports]
    cases hreport : (concluded settings outcome middle).lastExport.report? <;> simp [hreport]

theorem stopsAt_of_dismantled {fatal : Ending σ} {cause : Error} {later : List (Ending σ)}
    {state : RunState σ} (houtcome : fatal.outcome = .error cause)
    (hends : cause.IsFatal settings)
    (hpassing : ∀ ending ∈ later, ending.outcome = .error (.aborted cause))
    (hdismantled :
      (Run.reported (fatal.task.message cause) cause settings fatal.state).Dismantled state) :
    StopsAt settings fatal cause (later ++ [state.lastExport]) (state.finished settings) := by
  have hlater : (later ++ [state.lastExport]).filterMap Ending.report? =
      state.lastExport.report?.toList := by
    rw [List.filterMap_append, passing_report? hpassing]
    cases hreport : state.lastExport.report? <;> simp [hreport]
  exact
    { outcome := houtcome
      ends := hends
      chain := (RunState.finished_chain state).trans hdismantled.chain
      store := by
        rw [RunState.finished_store]
        exact hdismantled.store
      journal := by
        rw [hlater, RunState.finished_journal, hdismantled.journal]
        cases state.lastExport.report? <;> rfl
      once := by
        rw [hlater]
        cases state.lastExport.report? <;> simp
      passing := by
        intro ending hending
        rcases List.mem_append.mp hending with hearlier | hlast
        · exact Or.inl (hpassing ending hearlier)
        · obtain rfl := List.mem_singleton.mp hlast
          exact Or.inr ⟨rfl, fun _ => RunState.isOrdinary_of_lastExport⟩ }

/-- The export at the end may itself be the first to end the run. -/
theorem stopsAt_lastExport {state : RunState σ} {error : Error}
    (houtcome : state.lastExport.outcome = .error error) (hends : error.IsFatal settings) :
    StopsAt settings state.lastExport error [] (state.finished settings) := by
  have hreport : state.lastExport.report? = some (Task.lastExport.message error, error) := by
    have hordinary := RunState.isOrdinary_of_lastExport houtcome
    rw [Ending.report?, houtcome]
    cases error <;> first | rfl | exact hordinary.elim
  exact
    { outcome := houtcome
      ends := hends
      chain := RunState.finished_chain state
      store := ⟨[], RunState.finished_store state⟩
      journal := by
        rw [RunState.finished_journal, hreport]
        rfl
      once := Nat.zero_le 1
      passing := by simp }

theorem stops_of_isFatal {ending : Ending σ}
    (hending : ending ∈ (trace program).endings settings start) {error : Error}
    (hfailure : ending.outcome = .error error) (hends : error.IsFatal settings) :
    ∃ before fatal cause later after,
      (trace program).endings settings start = before ++ fatal :: later ∧
      (∀ earlier ∈ before, ∀ failure, earlier.outcome = .error failure →
        ¬ failure.IsFatal settings) ∧
      (run Empty.elim program).run settings start = .ok () after ∧
      StopsAt settings fatal cause later after := by
  rcases cases_run settings program start with
    ⟨_, _, hcalm⟩ | ⟨outcome, history, middle, hrun, hendings, hcourse⟩
  · exact (hcalm.not_isFatal hending hfailure hends).elim
  · by_cases hearly : ∃ ending ∈ history, ∃ error, ending.outcome = .error error ∧
        error.IsFatal settings
    · obtain ⟨before, fatal, later, cause, rfl, hbefore, houtcome, hcause, hpassing,
        hdismantled⟩ := hcourse.of_isFatal hearly
      exact ⟨before, fatal, cause, _, _, by rw [hendings, List.append_assoc, List.cons_append],
        hbefore, hrun, stopsAt_of_dismantled houtcome hcause hpassing hdismantled⟩
    · rw [hendings] at hending
      rcases List.mem_append.mp hending with hearlier | hlast
      · exact absurd ⟨ending, hearlier, error, hfailure, hends⟩ hearly
      · obtain rfl := List.mem_singleton.mp hlast
        exact ⟨history, _, error, [], _, hendings,
          fun earlier hearlier failure h hfatal => hearly ⟨earlier, hearlier, failure, h, hfatal⟩,
          hrun, stopsAt_lastExport hfailure hends⟩

theorem lost_once {ending : Ending σ}
    (hending : ending ∈ (trace program).endings settings start) {number : Int} {depth : Nat}
    (hlost : ending.outcome = .error (.discontinuity number depth)) :
    ∃ before later, (trace program).endings settings start = before ++ ending :: later ∧
      ∀ other ∈ before ++ later, ∀ number depth,
        other.outcome ≠ .error (.discontinuity number depth) := by
  obtain ⟨before, fatal, cause, later, after, hendings, hbefore, _, hstops⟩ :=
    stops_of_isFatal hending hlost trivial
  have hapart : ∀ other ∈ before ++ later, ∀ number depth,
      other.outcome ≠ .error (.discontinuity number depth) := by
    intro other hother number depth hother'
    rcases List.mem_append.mp hother with hearlier | hlater
    · exact hbefore other hearlier _ hother' trivial
    · rcases hstops.passing other hlater with haborted | ⟨_, hordinary⟩
      · rw [haborted] at hother'
        cases hother'
      · exact hordinary _ hother'
  rw [hendings] at hending
  have hsame : ending = fatal := by
    by_contra hne
    have hother : ending ∈ before ++ later := by
      simpa [hne] using hending
    exact hapart ending hother number depth hlost
  exact ⟨before, later, hsame ▸ hendings, hapart⟩

theorem halted_of_aborted {instruction : Instruction Empty} {state after : RunState σ}
    {cause : Error}
    (hrun : (instruction.execute Empty.elim).run settings state = .failed (.aborted cause) after) :
    Halted settings state cause (instruction.trace.endings settings state) after := by
  have hends := Instruction.complies_trace instruction [] state (calm_nil settings state)
  rw [Instruction.run_trace, hrun, List.nil_append] at hends
  rcases hends with ⟨hordinary, _⟩ | ⟨_, hsame, hhalted⟩
  · exact hordinary.elim
  · cases hsame
    exact hhalted

/-- Every program deals with failures in this way, whatever the client answers. -/
theorem followsPolicy (settings : Settings σ) (program : Program Empty) (start : RunState σ) :
    FollowsPolicy settings program start where
  traced := run_trace program
  succeeds := by
    intro error after hfailed
    rcases cases_run settings program start with ⟨_, hrun, _⟩ | ⟨_, _, _, hrun, _⟩ <;>
      rw [hrun] at hfailed <;> cases hfailed
  finishes := fun _ _ => run_of_attempt
  exportsOnce := by
    intro after hdone
    rcases cases_run settings program start with
      ⟨_, hrun, _⟩ | ⟨_, history, _, _, hendings, hcourse⟩
    · rw [hrun] at hdone
      cases hdone
    · exact ⟨history, _, hendings, rfl, hcourse.inside⟩
  reports := reports_run settings program start
  counts := by
    rw [reports_run, List.length_append, List.length_filterMap_eq_countP]
    simp only [Ending.isSome_report?]
  stops := fun _ hending _ => stops_of_isFatal hending
  aborts := by
    intro instruction state after cause hrun
    have hhalted := halted_of_aborted hrun
    refine ⟨hhalted, fun habort => ?_⟩
    obtain ⟨_, _, _, _, hat⟩ := hhalted
    have hends := hat.ends
    cases cause with
    | discontinuity number depth => exact ⟨number, depth, rfl⟩
    | aborted => exact hends.elim
    | _ => exact absurd (habort.symm.trans hends) Bool.false_ne_true
  lostOnce := fun _ hending _ _ => lost_once hending

end Program

end ChainExtract
