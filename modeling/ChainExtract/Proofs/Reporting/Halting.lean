import ChainExtract.Proofs.BlockRange.Retrieval
import ChainExtract.Proofs.Keeps
import ChainExtract.Proofs.Reporting.Tracing

/-! # Reports and the end of a run

What has been recorded about the tasks of a run says what has been reported. Failures are
passed over up to the first that ends the run. It is reported where its task has ended, and
from then on the tasks around it are only left.
-/

namespace ChainExtract

variable {σ α β : Type}

/-- The failure ends the run, once it has been reported. -/
def Error.IsFatal (settings : Settings σ) : Error → Prop
  | .aborted _ => False
  | .discontinuity _ _ => True
  | _ => settings.abortOnFailure = true

theorem Error.IsOrdinary.isFatal_iff {error : Error} (hordinary : error.IsOrdinary)
    {settings : Settings σ} : error.IsFatal settings ↔ settings.abortOnFailure = true := by
  cases error <;> first | exact Iff.rfl | exact hordinary.elim

/-- The cursor points at some of the items at which the other one does. -/
structure Cursor.Sheds (cursor after : Cursor) : Prop where
  block : after.block = cursor.block ∨ after.block = none
  transaction : after.transactionAt = cursor.transactionAt ∨ after.transactionAt = none
  logEntry : after.logEntryAt = cursor.logEntryAt ∨ after.logEntryAt = none

namespace Cursor.Sheds

theorem refl (cursor : Cursor) : cursor.Sheds cursor :=
  ⟨Or.inl rfl, Or.inl rfl, Or.inl rfl⟩

theorem trans {cursor middle after : Cursor} (hfirst : cursor.Sheds middle)
    (hsecond : middle.Sheds after) : cursor.Sheds after :=
  ⟨hsecond.block.elim (fun h => h ▸ hfirst.block) Or.inr,
    hsecond.transaction.elim (fun h => h ▸ hfirst.transaction) Or.inr,
    hsecond.logEntry.elim (fun h => h ▸ hfirst.logEntry) Or.inr⟩

theorem empty (cursor : Cursor) : cursor.Sheds .empty :=
  ⟨Or.inr rfl, Or.inr rfl, Or.inr rfl⟩

theorem withoutTransaction (cursor : Cursor) : cursor.Sheds cursor.withoutTransaction :=
  ⟨Or.inl rfl, Or.inr rfl, Or.inr rfl⟩

theorem withoutLogEntry (cursor : Cursor) : cursor.Sheds cursor.withoutLogEntry :=
  ⟨Or.inl rfl, Or.inl rfl, Or.inr rfl⟩

end Cursor.Sheds

/-- Since the state variables have been removed and items have been left, and nothing else has
happened. -/
structure RunState.Dismantled (state after : RunState σ) : Prop where
  chain : after.chain = state.chain
  closed : after.closed = state.closed
  cursor : state.cursor.Sheds after.cursor
  store : ∃ names, after.store = state.store.eraseAll names
  sinks : after.sinks = state.sinks
  folder : after.folder = state.folder
  journal : after.journal = state.journal

namespace RunState.Dismantled

theorem refl (state : RunState σ) : state.Dismantled state :=
  ⟨rfl, rfl, .refl _, ⟨[], rfl⟩, rfl, rfl, rfl⟩

theorem trans {state middle after : RunState σ} (hfirst : state.Dismantled middle)
    (hsecond : middle.Dismantled after) : state.Dismantled after := by
  obtain ⟨first, hfirstStore⟩ := hfirst.store
  obtain ⟨second, hsecondStore⟩ := hsecond.store
  have hstore : after.store = state.store.eraseAll (first ++ second) := by
    rw [hsecondStore, hfirstStore]
    exact List.foldl_append.symm
  exact
    { chain := hsecond.chain.trans hfirst.chain
      closed := hsecond.closed.trans hfirst.closed
      cursor := hfirst.cursor.trans hsecond.cursor
      store := ⟨_, hstore⟩
      sinks := hsecond.sinks.trans hfirst.sinks
      folder := hsecond.folder.trans hfirst.folder
      journal := hsecond.journal.trans hfirst.journal }

theorem left (state : RunState σ) {cursor : Cursor} (hsheds : state.cursor.Sheds cursor) :
    state.Dismantled { state with cursor } :=
  ⟨rfl, rfl, hsheds, ⟨[], rfl⟩, rfl, rfl, rfl⟩

theorem erased (state : RunState σ) (names : List String) :
    state.Dismantled { state with store := state.store.eraseAll names } :=
  ⟨rfl, rfl, .refl _, ⟨names, rfl⟩, rfl, rfl, rfl⟩

end RunState.Dismantled

theorem RunState.reports_eq_of_journal {state after : RunState σ}
    (hjournal : after.journal = state.journal) : after.reports = state.reports := by
  rw [RunState.reports, hjournal, RunState.reports]

theorem RunState.reports_reported (message : String) (error : Error) (settings : Settings σ)
    (state : RunState σ) :
    (Run.reported message error settings state).reports = state.reports ++ [(message, error)] := by
  simp [RunState.reports, Run.reported]

namespace Reporting

variable {settings : Settings σ} {start : RunState σ}

/-- The failures so far have all been reported and passed over. -/
structure Calm (settings : Settings σ) (start : RunState σ) (history : List (Ending σ))
    (state : RunState σ) : Prop where
  reports : state.reports = start.reports ++ history.filterMap Ending.report?
  passed : ∀ ending ∈ history, ∀ error, ending.outcome = .error error →
    error.IsOrdinary ∧ settings.abortOnFailure = false
  inside : ∀ ending ∈ history, ending.task ≠ .lastExport

/-- After tasks whose failures have been passed over, one has ended in the failure `cause`, which
ends the run: it has been reported, and the tasks around it have been left. -/
structure HaltedAt (settings : Settings σ) (start : RunState σ) (cause : Error)
    (before : List (Ending σ)) (fatal : Ending σ) (later : List (Ending σ))
    (after : RunState σ) : Prop where
  calm : Calm settings start before fatal.state
  outcome : fatal.outcome = .error cause
  ends : cause.IsFatal settings
  passing : ∀ ending ∈ later, ending.outcome = .error (.aborted cause)
  inside : ∀ ending ∈ fatal :: later, ending.task ≠ .lastExport
  dismantled :
    (Run.reported (fatal.task.message cause) cause settings fatal.state).Dismantled after

/-- A failure has ended the run. -/
def Halted (settings : Settings σ) (start : RunState σ) (cause : Error)
    (history : List (Ending σ)) (after : RunState σ) : Prop :=
  ∃ before fatal later, history = before ++ fatal :: later ∧
    HaltedAt settings start cause before fatal later after

/-- How a part of the run fails: in a way that has not been reported yet, or by the abort that a
reported failure has brought about. -/
def Fails (settings : Settings σ) (start : RunState σ) (error : Error)
    (history : List (Ending σ)) (after : RunState σ) : Prop :=
  (error.IsOrdinary ∧ Calm settings start history after) ∨
    ∃ cause, error = .aborted cause ∧ Halted settings start cause history after

theorem calm_nil (settings : Settings σ) (start : RunState σ) : Calm settings start [] start :=
  ⟨by simp, by simp, by simp⟩

theorem Calm.of_journal {history : List (Ending σ)} {state after : RunState σ}
    (hcalm : Calm settings start history state) (hjournal : after.journal = state.journal) :
    Calm settings start history after :=
  ⟨(RunState.reports_eq_of_journal hjournal).trans hcalm.reports, hcalm.passed, hcalm.inside⟩

/-- Entries that report nothing keep the run calm. -/
theorem Calm.cons {history : List (Ending σ)} {state after : RunState σ} {entry : JournalEntry}
    (hcalm : Calm settings start history state)
    (hentry : ∀ message error, entry ≠ .reported message error)
    (hjournal : after.journal = entry :: state.journal) : Calm settings start history after := by
  refine ⟨?_, hcalm.passed, hcalm.inside⟩
  rw [← hcalm.reports, RunState.reports, hjournal, RunState.reports]
  cases entry <;> first | exact absurd rfl (hentry _ _) | simp

theorem Calm.append_ok {history : List (Ending σ)} {state ended : RunState σ} {task : Task}
    (hcalm : Calm settings start history state) (htask : task ≠ .lastExport) :
    Calm settings start (history ++ [⟨task, .ok (), ended⟩]) state where
  reports := by
    have hreport : Ending.report? ⟨task, .ok (), ended⟩ = none := rfl
    simpa [hreport] using hcalm.reports
  passed := by simpa [or_imp, forall_and] using hcalm.passed
  inside := by simpa [or_imp, forall_and, htask] using hcalm.inside

theorem Calm.append_reported {history : List (Ending σ)} {state : RunState σ} {task : Task}
    {error : Error} (hcalm : Calm settings start history state) (htask : task ≠ .lastExport)
    (hordinary : error.IsOrdinary) (habort : settings.abortOnFailure = false) :
    Calm settings start (history ++ [⟨task, .error error, state⟩])
      (Run.reported (task.message error) error settings state) where
  reports := by
    have hreport : Ending.report? ⟨task, .error error, state⟩ =
        some (task.message error, error) := by
      cases error <;> first | rfl | exact hordinary.elim
    simp [RunState.reports_reported, hcalm.reports, hreport]
  passed := by
    rintro ending hending failure hfailure
    rcases List.mem_append.mp hending with hearlier | hlast
    · exact hcalm.passed ending hearlier failure hfailure
    · obtain rfl := List.mem_singleton.mp hlast
      cases hfailure
      exact ⟨hordinary, habort⟩
  inside := by simpa [or_imp, forall_and, htask] using hcalm.inside

theorem Halted.dismantled {cause : Error} {history : List (Ending σ)} {state after : RunState σ}
    (hhalted : Halted settings start cause history state) (hafter : state.Dismantled after) :
    Halted settings start cause history after := by
  obtain ⟨before, fatal, later, hhistory, hat⟩ := hhalted
  exact ⟨before, fatal, later, hhistory, { hat with dismantled := hat.dismantled.trans hafter }⟩

/-- The abort passes a task on its way out. -/
theorem Halted.append {cause : Error} {history : List (Ending σ)} {state ended : RunState σ}
    (hhalted : Halted settings start cause history state) {task : Task}
    (htask : task ≠ .lastExport) :
    Halted settings start cause (history ++ [⟨task, .error (.aborted cause), ended⟩]) state := by
  obtain ⟨before, fatal, later, rfl, hat⟩ := hhalted
  have hpassing := hat.passing
  have hinside := hat.inside
  refine ⟨before, fatal, later ++ [⟨task, .error (.aborted cause), ended⟩], by simp,
    { hat with passing := ?_, inside := ?_ }⟩
  · simpa [or_imp, forall_and] using hpassing
  · simp_all [or_imp, forall_and]

theorem Fails.dismantled {error : Error} {history : List (Ending σ)} {state after : RunState σ}
    (hfails : Fails settings start error history state) (hafter : state.Dismantled after) :
    Fails settings start error history after := by
  rcases hfails with ⟨hordinary, hcalm⟩ | ⟨cause, rfl, hhalted⟩
  · exact Or.inl ⟨hordinary, hcalm.of_journal hafter.journal⟩
  · exact Or.inr ⟨cause, rfl, hhalted.dismantled hafter⟩

/-- How a part of the run has ended, told as a value. -/
def Ended (settings : Settings σ) (start : RunState σ) (outcome : Except Error α)
    (history : List (Ending σ)) (state : RunState σ) : Prop :=
  match outcome with
  | .ok _ => Calm settings start history state
  | .error error => Fails settings start error history state

theorem Ended.dismantled {outcome : Except Error α} {history : List (Ending σ)}
    {state after : RunState σ} (hended : Ended settings start outcome history state)
    (hafter : state.Dismantled after) : Ended settings start outcome history after := by
  cases outcome with
  | ok => exact Calm.of_journal hended hafter.journal
  | error => exact Fails.dismantled hended hafter

end Reporting

namespace Traced

open Reporting

/-- Where a run has ended, with what has been recorded up to there. -/
def Ensures (settings : Settings σ) (P : List (Ending σ) → RunState σ → Prop)
    (Q : α → List (Ending σ) → RunState σ → Prop) (H : Error → List (Ending σ) → RunState σ → Prop)
    (U : List (Ending σ) → RunState σ → Prop) (x : Traced σ α) : Prop :=
  ∀ history state, P history state →
    (x.run.run settings state).Satisfies
      (fun result => Q result (history ++ x.endings settings state))
      (fun error => H error (history ++ x.endings settings state))
      (U (history ++ x.endings settings state))

variable {settings : Settings σ} {start : RunState σ} {P : List (Ending σ) → RunState σ → Prop}
variable {Q : α → List (Ending σ) → RunState σ → Prop}
variable {R : β → List (Ending σ) → RunState σ → Prop}
variable {H : Error → List (Ending σ) → RunState σ → Prop}
variable {U : List (Ending σ) → RunState σ → Prop}

theorem ensures_lift {x : Run σ α}
    (hx : ∀ history, x.Ensures settings (P history) (fun result => Q result history)
      (fun error => H error history) (U history)) : (lift x).Ensures settings P Q H U := by
  intro history state hstate
  simpa [lift] using hx history state hstate

theorem endings_bind_of_ok {x : Traced σ α} {f : α → Traced σ β} {state middle : RunState σ}
    {result : α} (hx : x.run.run settings state = .ok result middle) :
    (x >>= f).endings settings state =
      x.endings settings state ++ (f result).endings settings middle := by
  show (x.bind f).endings settings state = _
  simp only [Traced.bind, hx]

theorem endings_bind_of_not_ok {x : Traced σ α} {f : α → Traced σ β} {state : RunState σ}
    (hx : (x.run.run settings state).isOk = false) :
    (x >>= f).endings settings state = x.endings settings state := by
  show (x.bind f).endings settings state = _
  rw [Traced.bind]
  cases hrun : x.run.run settings state with
  | ok =>
      rw [hrun] at hx
      cases hx
  | failed | unfinished => simp only [hrun, List.append_nil]

theorem Ensures.bind {x : Traced σ α} {f : α → Traced σ β} (hx : x.Ensures settings P Q H U)
    (hf : ∀ result, (f result).Ensures settings (Q result) R H U) :
    (x >>= f).Ensures settings P R H U := by
  intro history state hstate
  have hfirst := hx history state hstate
  rw [run_bind, Run.run_bind]
  cases hrun : x.run.run settings state with
  | ok result middle =>
      rw [hrun] at hfirst
      rw [endings_bind_of_ok hrun, ← List.append_assoc]
      exact hf result _ middle hfirst
  | failed | unfinished =>
      rw [hrun] at hfirst
      rw [endings_bind_of_not_ok (by rw [hrun]; rfl)]
      exact hfirst

theorem ensures_pure {result : α} (hresult : ∀ history state, P history state →
    Q result history state) : (pure result : Traced σ α).Ensures settings P Q H U :=
  ensures_lift fun history state hstate => hresult history state hstate

/-- The part keeps to what is to be done about failures: it passes them over, or ends the run. -/
abbrev Complies (settings : Settings σ) (start : RunState σ) (x : Traced σ α) : Prop :=
  x.Ensures settings (Calm settings start) (fun _ => Calm settings start) (Fails settings start)
    (Calm settings start)

theorem complies_pure (result : α) : (pure result : Traced σ α).Complies settings start :=
  ensures_pure fun _ _ hcalm => hcalm

/-- What fails in an ordinary way only, and reports nothing. -/
theorem complies_lift {x : Run σ α}
    (hx : ∀ history, x.Sustains settings (Calm settings start history) Error.IsOrdinary
      (Calm settings start history)) : (lift x).Complies settings start :=
  ensures_lift fun history => Run.Ensures.imp (hx history) (fun _ h => h) (fun _ _ h => h)
    (fun _ _ h => Or.inl ⟨h.2, h.1⟩) fun _ h => h

theorem Ensures.attempt {x : Traced σ α}
    (hx : x.Ensures settings P (fun _ => Calm settings start) (Fails settings start) U) :
    x.attempt.Ensures settings P (Ended settings start) H U := by
  intro history state hstate
  have hends := hx history state hstate
  rw [run_attempt, Run.run_attempt]
  cases hrun : x.run.run settings state <;> rw [hrun] at hends <;> exact hends

/-- Items are left, or variables removed, however a part of the run has ended. -/
theorem ensures_modify_ended {outcome : Except Error α} {undo : RunState σ → RunState σ}
    (hundo : ∀ state : RunState σ, state.Dismantled (undo state)) :
    (lift (Run.modify undo)).Ensures settings (Ended settings start outcome)
      (fun _ => Ended settings start outcome) H U :=
  ensures_lift fun _ state hended => hended.dismantled (hundo state)

/-- Something is undone however a part of the run has ended, and its failure goes on. -/
theorem complies_undone {x : Traced σ α} {undo : RunState σ → RunState σ}
    (hx : x.Ensures settings P (fun _ => Calm settings start) (Fails settings start) U)
    (hundo : ∀ state : RunState σ, state.Dismantled (undo state)) :
    (do
      let outcome ← x.attempt
      lift do
        Run.modify undo
        Run.ofExcept outcome).Ensures settings P (fun _ => Calm settings start)
          (Fails settings start) U := by
  refine hx.attempt.bind fun outcome => ensures_lift fun history => ?_
  refine Run.Ensures.bind (Q := fun _ => Ended settings start outcome history)
    (fun state hended => hended.dismantled (hundo state)) fun _ state hended => ?_
  cases outcome <;> exact hended

theorem ensures_record (task : Task) (outcome : Except Error Unit) :
    (record task outcome).Ensures settings P
      (fun _ history state => ∃ earlier, history = earlier ++ [⟨task, outcome, state⟩] ∧
        P earlier state) H U :=
  fun history _ hstate => ⟨history, rfl, hstate⟩

/-- Settling the failure of a task that has been recorded last. -/
theorem ensures_settle {task : Task} {error : Error} (htask : task ≠ .lastExport)
    (hordinary : error.IsOrdinary) :
    (lift (Run.settle (task.message error) error)).Ensures settings
      (fun history state => ∃ earlier, history = earlier ++ [⟨task, .error error, state⟩] ∧
        Calm settings start earlier state)
      (fun _ => Calm settings start) (Fails settings start) U := by
  refine ensures_lift fun history state hrecorded => ?_
  obtain ⟨earlier, rfl, hcalm⟩ := hrecorded
  rw [Run.run_settle hordinary.isAborted]
  cases habort : settings.abortOnFailure with
  | false => exact hcalm.append_reported htask hordinary habort
  | true =>
      exact Or.inr ⟨error, rfl, earlier, _, [], rfl,
        { calm := hcalm
          outcome := rfl
          ends := hordinary.isFatal_iff.mpr habort
          passing := by simp
          inside := by simpa using htask
          dismantled := .refl _ }⟩

theorem ensures_conclude {task : Task} (htask : task ≠ .lastExport)
    (outcome : Except Error Unit) :
    (conclude task outcome).Ensures settings (Ended settings start outcome)
      (fun _ => Calm settings start) (Fails settings start) U := by
  cases outcome with
  | ok => exact fun _ _ hcalm => Calm.append_ok hcalm htask
  | error error =>
      refine (ensures_record task (.error error)).bind fun _ history state hrecorded => ?_
      obtain ⟨earlier, rfl, ⟨hordinary, hcalm⟩ | ⟨cause, rfl, hhalted⟩⟩ := hrecorded
      · exact ensures_settle htask hordinary _ state ⟨earlier, rfl, hcalm⟩
      · have hfails : Fails settings start (.aborted cause)
            (earlier ++ [⟨task, .error (.aborted cause), state⟩]) state :=
          Or.inr ⟨cause, rfl, hhalted.append htask⟩
        simpa [lift, Run.settle, Error.isAborted, Outcome.Satisfies] using hfails

end Traced

end ChainExtract
