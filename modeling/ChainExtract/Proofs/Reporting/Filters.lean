import ChainExtract.Proofs.Export.Files
import ChainExtract.Proofs.Reporting.Halting

/-! # Filters and failures

Filters keep to what is to be done about failures if their bodies do: a failure in an item is
passed over or ends the run, and one that has ended the run is handed on.
-/

namespace ChainExtract

open Reporting Traced

variable {σ : Type} {settings : Settings σ} {start : RunState σ} {body : Traced σ Unit}

namespace Reporting

theorem operandStable_calm (history : List (Ending σ)) :
    Run.OperandStable settings (Calm settings start history) where
  assigned := fun _ _ _ hcalm => hcalm.cons (by simp) rfl
  queried := fun _ _ hcalm => hcalm.cons (by simp) rfl

theorem retrievalStable_calm (history : List (Ending σ)) :
    BlockRange.RetrievalStable settings (Calm settings start history) where
  polled := fun _ hcalm => hcalm.cons (by simp) rfl
  requested := fun _ _ hcalm => hcalm.cons (by simp) rfl
  withdrawn := fun _ _ _ hcalm => hcalm.cons (by simp) rfl

/-- Pointing at an item of the one that is being visited. -/
theorem complies_point {point : Cursor → Except Error Cursor}
    (hpoint : ∀ cursor, FailsOnly Error.IsOrdinary (point cursor)) :
    (lift do Run.setCursor (← Run.ofExcept (point (← Run.state).cursor))).Complies settings
      start := by
  refine complies_lift fun history => Run.ensures_state.bind fun found state hfound => ?_
  refine (Run.sustains_ofExcept (hpoint found.cursor)).bind (fun cursor => ?_) state hfound.1
  exact Run.sustains_modify fun _ hcalm => hcalm.of_journal rfl

/-- The visit of an item: it is left however its body has ended, and its failure is settled. -/
theorem complies_visit {x : Traced σ Unit} {task : Task} {leave : Cursor → Cursor}
    (hx : x.Complies settings start) (htask : task ≠ .lastExport)
    (hleave : ∀ cursor : Cursor, cursor.Sheds (leave cursor)) {rest : Traced σ Unit}
    (hrest : rest.Complies settings start) :
    (do
      let outcome ← x.attempt
      lift do Run.setCursor (leave (← Run.state).cursor)
      conclude task outcome
      rest).Complies settings start := by
  refine hx.attempt.bind fun outcome => ?_
  refine Ensures.bind (ensures_modify_ended fun state => .left state (hleave state.cursor)) ?_
  exact fun _ => (ensures_conclude htask outcome).bind fun _ => hrest

end Reporting

theorem Cursor.failsOrdinarily_atTransaction (cursor : Cursor) (index : Nat) :
    FailsOnly Error.IsOrdinary (cursor.atTransaction index) := by
  cases hblock : cursor.block with
  | none =>
      rw [atTransaction, hblock]
      exact failsOnly_error trivial
  | some block => exact (failsOnly_atTransaction hblock index).imp fun _ h => h.isOrdinary

theorem Cursor.failsOrdinarily_atLogEntry (cursor : Cursor) (index : Nat) :
    FailsOnly Error.IsOrdinary (cursor.atLogEntry index) := by
  cases htransaction : cursor.transaction with
  | none =>
      rw [atLogEntry, htransaction]
      exact failsOnly_error trivial
  | some transaction =>
      exact (failsOnly_atLogEntry htransaction index).imp fun _ h => h.isOrdinary

namespace TransactionFilter

theorem complies_traceAll (hbody : body.Complies settings start) (indices : List Nat) :
    (traceAll body indices).Complies settings start := by
  induction indices with
  | nil => exact complies_pure ()
  | cons index rest ih =>
      refine Ensures.bind (complies_point fun cursor =>
        cursor.failsOrdinarily_atTransaction index) fun _ => ?_
      exact complies_visit hbody (by simp) Cursor.Sheds.withoutTransaction ih

theorem complies_trace (hbody : body.Complies settings start) (senders recipients : AddressSet) :
    (trace senders recipients body).Complies settings start := by
  refine Ensures.bind (complies_lift fun _ _ hcalm => hcalm) fun state => ?_
  split
  · exact complies_lift fun _ => Run.sustains_fail trivial
  · exact complies_traceAll hbody _

end TransactionFilter

namespace LogEntryFilter

theorem complies_enter (event : EventDecl) (index : Nat) :
    (lift (enter event index)).Complies settings start := by
  refine complies_lift fun history => Run.ensures_state.bind fun found state hfound => ?_
  refine (Run.sustains_ofExcept (found.cursor.failsOrdinarily_atLogEntry index)).bind
    (fun cursor => ?_) state hfound.1
  refine (Run.sustains_modify fun _ hcalm => hcalm.of_journal rfl).bind fun _ => ?_
  refine Run.ensures_state.bind fun pointing pointed hpointed => ?_
  split
  next entry _ =>
    exact Run.sustains_ofExcept ((event.failsOnly_decode entry.topics entry.data).imp
      fun _ h => h.isOrdinary) pointed hpointed.1
  · exact hpointed.1

theorem complies_traceVisit (hbody : body.Complies settings start) (event : EventDecl)
    (index : Nat) : (traceVisit event body index).Complies settings start := by
  refine (complies_enter event index).bind fun decoded => ?_
  refine Ensures.bind (complies_lift fun history =>
    Run.sustains_assignAll (operandStable_calm history) decoded) fun _ => ?_
  exact complies_undone hbody fun state => .erased state _

theorem complies_traceEach (hbody : body.Complies settings start) (event : EventDecl)
    (indices : List Nat) : (traceEach event body indices).Complies settings start := by
  induction indices with
  | nil => exact complies_pure ()
  | cons index rest ih =>
      exact complies_visit (complies_traceVisit hbody event index) (by simp)
        Cursor.Sheds.withoutLogEntry ih

theorem complies_trace (hbody : body.Complies settings start) (event : EventDecl)
    (emitters : AddressSet) : (trace event emitters body).Complies settings start := by
  refine Ensures.bind (complies_lift fun _ _ hcalm => hcalm) fun state => ?_
  split
  · exact complies_lift fun _ => Run.sustains_fail trivial
  · exact complies_traceEach hbody event _

end LogEntryFilter

namespace BlockRange

/-- Ending a block or the run for the sinks fails only to write. -/
theorem ensures_finish (extent : Extent) {U : List (Ending σ) → RunState σ → Prop} :
    (lift (Run.finish extent)).Ensures settings (Calm settings start)
      (fun failure? history after => Calm settings start history after ∧
        ∀ error, failure? = some error → error.IsOrdinary) (Fails settings start) U := by
  refine ensures_lift fun history state hcalm => ⟨hcalm.of_journal rfl, fun error hfailure => ?_⟩
  obtain ⟨_, _, rfl⟩ := Folder.unwritten_of_writeAll hfailure
  trivial

theorem complies_traceVisit (hbody : body.Complies settings start) (block : Block) :
    (traceVisit body block).Complies settings start := by
  have hexport (failure? : Option Error) :
      (conclude (.blockExport block.number) (failure?.elim (.ok ()) .error)).Ensures settings
        (fun history after => Calm settings start history after ∧
          ∀ error, failure? = some error → error.IsOrdinary)
        (fun _ => Calm settings start) (Fails settings start) (Calm settings start) := by
    refine fun history state hfinished =>
      ensures_conclude (by simp) (failure?.elim (.ok ()) .error) history state ?_
    cases failure? with
    | none => exact hfinished.1
    | some error => exact Or.inl ⟨hfinished.2 error rfl, hfinished.1⟩
  have hentry : ∀ message error, JournalEntry.delivered block ≠ .reported message error := by simp
  refine Ensures.bind (complies_lift fun _ _ hcalm => hcalm.cons hentry rfl) fun _ => ?_
  refine complies_undone (hbody.attempt.bind fun outcome => ?_) fun state => .left state (.empty _)
  exact (ensures_conclude (by simp) outcome).bind fun _ => (ensures_finish _).bind hexport

theorem complies_traceTurn (hbody : body.Complies settings start) (window : Window) (next : Int) :
    (traceTurn body window next).Complies settings start := by
  have hmaintains (history : List (Ending σ)) :
      (fetch window next).Maintains settings (Calm settings start history)
        (fun fetched => ∀ error, fetched = .error error → error.isAborted = false)
        (fun _ => False) :=
    maintains_fetch (E := fun error => error.isAborted = false) (retrievalStable_calm history)
      (fun _ _ _ => rfl) (fun _ _ => rfl) (fun _ _ => rfl) window next
  have hfetch : (lift (fetch window next)).Ensures settings (Calm settings start)
      (fun fetched history after => Calm settings start history after ∧
        ∀ error, fetched = .error error → error.isAborted = false)
      (Fails settings start) (Calm settings start) :=
    ensures_lift fun history => Run.Ensures.imp ((hmaintains history).ensures fun _ h => h)
      (fun _ h => h) (fun _ _ h => h) (fun _ _ h => h.2.elim) fun _ h => h
  refine hfetch.bind fun fetched => Ensures.bind (ensures_record _ _) fun _ => ?_
  rintro _ state ⟨earlier, rfl, hcalm, hfailure⟩
  cases fetched with
  | ok fetched =>
      exact (complies_traceVisit hbody fetched.1).bind (fun _ => complies_pure _) _ state
        (hcalm.append_ok (by simp))
  | error error =>
      have hsettles (hordinary : error.IsOrdinary) :
          (lift (Run.settle ((Task.retrieval next).message error) error)).Ensures settings
            (fun (history : List (Ending σ)) state => ∃ earlier,
              history = earlier ++ [⟨.retrieval next, .error error, state⟩] ∧
                Calm settings start earlier state)
            (fun _ => Calm settings start) (Fails settings start) (Calm settings start) :=
        ensures_settle (by simp) hordinary
      cases error with
      | aborted cause => cases hfailure _ rfl
      | discontinuity number depth =>
          exact Or.inr ⟨_, rfl, earlier, ⟨.retrieval next, _, state⟩, [], by simp [lift, Except.map],
            { calm := hcalm
              outcome := rfl
              ends := trivial
              passing := by simp
              inside := by simp
              dismantled := .refl _ }⟩
      | _ => exact (hsettles trivial).bind (fun _ => complies_pure _) _ state ⟨earlier, rfl, hcalm⟩

theorem complies_trace (hbody : body.Complies settings start) (first : Int) (last : Option Int) :
    (trace body first last).Complies settings start := by
  have hvisits (patience : Nat) (window : Window) (next : Int) :
      (traceFrom body last patience window next).Complies settings start := by
    induction patience generalizing window next with
    | zero =>
        rw [traceFrom]
        split
        · exact complies_pure ()
        · exact complies_lift fun _ _ hcalm => hcalm
    | succ patience ih =>
        rw [traceFrom]
        split
        · exact complies_pure ()
        · exact (complies_traceTurn hbody window next).bind fun follow => ih follow.1 follow.2
  exact Ensures.bind (complies_lift fun _ _ hcalm => hcalm) fun _ => hvisits _ _ first

end BlockRange

namespace ContractFilter

theorem complies_trace (hbody : body.Complies settings start) (address : Operand)
    (reads : List MemberRead) : (trace address reads body).Complies settings start := by
  refine complies_undone ?_ fun state => .erased state _
  exact Ensures.bind (complies_lift fun history =>
    Run.sustains_reads (operandStable_calm history) address reads) fun _ => hbody

end ContractFilter

theorem complies_traceWhen (hbody : body.Complies settings start) (condition : Value) :
    (traceWhen condition body).Complies settings start := by
  unfold traceWhen
  split
  · exact hbody
  · exact complies_pure ()
  · exact complies_lift fun _ => Run.sustains_fail trivial

namespace Instruction

theorem complies_of_isSimple {instruction : Instruction Empty} (hsimple : instruction.IsSimple) :
    (trace instruction).Complies settings start := by
  have htrace : (trace instruction : Traced σ Unit) = lift (instruction.execute Empty.elim) := by
    cases instruction <;> first | exact hsimple.elim | simp [trace]
  rw [htrace]
  exact complies_lift fun history => sustains_simple (operandStable_calm history)
    (fun _ _ hcalm => hcalm.cons (by simp) rfl) Empty.elim hsimple

mutual

theorem complies_trace : ∀ instruction : Instruction Empty,
    (trace instruction).Complies settings start
  | .blocks first last body => by
      rw [trace]
      refine Ensures.bind (complies_lift fun history =>
        (Run.sustains_evaluate (operandStable_calm history) first).bind fun value =>
          Run.sustains_ofExcept ((BlockRange.failsOnly_bound value).imp fun _ h => h.isOrdinary))
        fun lower => ?_
      refine Ensures.bind (complies_lift fun history =>
        (Run.sustains_evaluate? (operandStable_calm history) last).bind fun value? =>
          Run.sustains_ofExcept ((BlockRange.failsOnly_bound? value?).imp fun _ h => h.isOrdinary))
        fun upper => ?_
      exact BlockRange.complies_trace (complies_traceAll body) lower upper
  | .transactions senders recipients body => by
      rw [trace]
      refine Ensures.bind (complies_lift fun history =>
        Run.sustains_evaluateAddresses (operandStable_calm history) _ senders) fun _ => ?_
      refine Ensures.bind (complies_lift fun history =>
        Run.sustains_evaluateAddresses (operandStable_calm history) _ recipients) fun _ => ?_
      exact TransactionFilter.complies_trace (complies_traceAll body) _ _
  | .logEntries event emitters body => by
      rw [trace]
      refine Ensures.bind (complies_lift fun history =>
        Run.sustains_evaluateAddresses (operandStable_calm history) _ emitters) fun _ => ?_
      exact LogEntryFilter.complies_trace (complies_traceAll body) event _
  | .when condition body => by
      rw [trace]
      refine Ensures.bind (complies_lift fun history =>
        Run.sustains_evaluate (operandStable_calm history) condition) fun value => ?_
      exact complies_traceWhen (complies_traceAll body) value
  | .contract address reads body => by
      rw [trace]
      exact ContractFilter.complies_trace (complies_traceAll body) address reads
  | .assign _ _ | .call _ _ _ | .exportRow _ _ | .exportLine _ | .exportEvent _ _ _ =>
    complies_of_isSimple trivial

theorem complies_traceAll : ∀ instructions : List (Instruction Empty),
    (traceAll instructions).Complies settings start
  | [] => by
      rw [traceAll]
      exact complies_pure ()
  | instruction :: rest => by
      rw [traceAll]
      exact (complies_trace instruction).bind fun _ => complies_traceAll rest

end

end Instruction

end ChainExtract
