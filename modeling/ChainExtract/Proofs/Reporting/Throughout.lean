import ChainExtract.Proofs.Reporting.Programs

/-! # What holds throughout a run

A property of states that the single steps of instructions uphold, and the end of a block too,
holds wherever the instructions of a program come to: at the end of each of their tasks, however
it has ended, and where they end themselves, be it in the midst of something.
-/

namespace ChainExtract

open Traced

variable {σ α β : Type}

/-- The property holds where tasks have ended, and where the run has come to. -/
def Kept (P : RunState σ → Prop) (history : List (Ending σ)) (state : RunState σ) : Prop :=
  (∀ ending ∈ history, P ending.state) ∧ P state

/-- What instructions do to a state maintains the property. Nothing is said about the export at
the end of the whole run. -/
structure Run.Enduring (settings : Settings σ) (P : RunState σ → Prop) : Prop where
  stable : Run.Stable settings P
  retrieval : BlockRange.RetrievalStable settings P
  delivered : ∀ state block, P state → P
    { state with journal := .delivered block :: state.journal }
  finished : ∀ number, (Run.finish (.block number)).Upholds settings P

namespace Traced

/-- If the property has held so far, it holds throughout this part of the run. -/
abbrev Throughout (settings : Settings σ) (P : RunState σ → Prop) (x : Traced σ α) : Prop :=
  x.Ensures settings (Kept P) (fun _ => Kept P) (fun _ => Kept P) (Kept P)

variable {settings : Settings σ} {P : RunState σ → Prop}

theorem throughout_lift {x : Run σ α} (hx : x.Upholds settings P) :
    (lift x).Throughout settings P := by
  refine ensures_lift fun history state hkept => ?_
  exact (hx.sustains state hkept.2).imp (fun _ _ h => ⟨hkept.1, h⟩) (fun _ _ h => ⟨hkept.1, h.1⟩)
    fun _ h => ⟨hkept.1, h⟩

theorem throughout_pure (result : α) : (pure result : Traced σ α).Throughout settings P :=
  throughout_lift (Run.upholds_pure result)

theorem Throughout.bind {x : Traced σ α} {f : α → Traced σ β} (hx : x.Throughout settings P)
    (hf : ∀ result, (f result).Throughout settings P) : (x >>= f).Throughout settings P :=
  Ensures.bind hx hf

theorem Throughout.attempt {x : Traced σ α} (hx : x.Throughout settings P) :
    x.attempt.Throughout settings P := by
  intro history state hkept
  have hends := hx history state hkept
  rw [run_attempt, Run.run_attempt]
  cases hrun : x.run.run settings state <;> rw [hrun] at hends <;> exact hends

theorem throughout_record (task : Task) (outcome : Except Error Unit) :
    (record task outcome).Throughout settings P := by
  rintro history state ⟨hhistory, hstate⟩
  refine ⟨fun ending hending => ?_, hstate⟩
  rcases List.mem_append.mp hending with hearlier | hlast
  · exact hhistory ending hearlier
  · obtain rfl := List.mem_singleton.mp hlast
    exact hstate

theorem throughout_conclude (hstable : Run.VisitStable settings P) (task : Task)
    (outcome : Except Error Unit) : (conclude task outcome).Throughout settings P := by
  cases outcome with
  | ok => exact throughout_record task (.ok ())
  | error error =>
      exact (throughout_record task (.error error)).bind fun _ =>
        throughout_lift (Run.upholds_settle hstable _ error)

end Traced

open Run

variable {settings : Settings σ} {P : RunState σ → Prop} {body : Traced σ Unit}

namespace TransactionFilter

theorem throughout_traceAll (hstable : VisitStable settings P)
    (hbody : body.Throughout settings P) (indices : List Nat) :
    (traceAll body indices).Throughout settings P := by
  induction indices with
  | nil => exact throughout_pure ()
  | cons index rest ih =>
      have hpoint : (do setCursor (← ofExcept ((← Run.state).cursor.atTransaction index))
          : Run σ Unit).Upholds settings P :=
        upholds_state.bind fun _ => (upholds_ofExcept _).bind fun cursor =>
          upholds_setCursor hstable cursor
      have hleave : (do setCursor (← Run.state).cursor.withoutTransaction
          : Run σ Unit).Upholds settings P :=
        upholds_state.bind fun _ => upholds_setCursor hstable _
      exact (throughout_lift hpoint).bind fun _ => hbody.attempt.bind fun outcome =>
        (throughout_lift hleave).bind fun _ => (throughout_conclude hstable _ outcome).bind fun _ =>
          ih

theorem throughout_trace (hstable : VisitStable settings P) (hbody : body.Throughout settings P)
    (senders recipients : AddressSet) : (trace senders recipients body).Throughout settings P := by
  refine (throughout_lift upholds_state).bind fun state => ?_
  split
  · exact throughout_lift (upholds_fail _)
  · exact throughout_traceAll hstable hbody _

end TransactionFilter

namespace LogEntryFilter

theorem throughout_traceVisit (hstable : Stable settings P) (hbody : body.Throughout settings P)
    (event : EventDecl) (index : Nat) : (traceVisit event body index).Throughout settings P := by
  refine (throughout_lift (upholds_enter hstable.visits event index)).bind fun decoded => ?_
  refine (throughout_lift (upholds_assignAll hstable.operands decoded)).bind fun _ => ?_
  refine hbody.attempt.bind fun outcome => throughout_lift ?_
  exact (upholds_erase hstable _).bind fun _ => upholds_ofExcept outcome

theorem throughout_traceEach (hstable : Stable settings P) (hbody : body.Throughout settings P)
    (event : EventDecl) (indices : List Nat) :
    (traceEach event body indices).Throughout settings P := by
  induction indices with
  | nil => exact throughout_pure ()
  | cons index rest ih =>
      have hleave : (do setCursor (← Run.state).cursor.withoutLogEntry
          : Run σ Unit).Upholds settings P :=
        upholds_state.bind fun _ => upholds_setCursor hstable.visits _
      exact (throughout_traceVisit hstable hbody event index).attempt.bind fun outcome =>
        (throughout_lift hleave).bind fun _ =>
          (throughout_conclude hstable.visits _ outcome).bind fun _ => ih

theorem throughout_trace (hstable : Stable settings P) (hbody : body.Throughout settings P)
    (event : EventDecl) (emitters : AddressSet) :
    (trace event emitters body).Throughout settings P := by
  refine (throughout_lift upholds_state).bind fun state => ?_
  split
  · exact throughout_lift (upholds_fail _)
  · exact throughout_traceEach hstable hbody event _

end LogEntryFilter

namespace BlockRange

theorem throughout_traceVisit (henduring : Enduring settings P)
    (hbody : body.Throughout settings P) (block : Block) :
    (traceVisit body block).Throughout settings P := by
  have hvisits := henduring.stable.visits
  have henter : (do
      note (.delivered block)
      setCursor (.atBlock block) : Run σ Unit).Upholds settings P :=
    Upholds.bind (maintains_modify fun state => henduring.delivered state block) fun _ =>
      upholds_setCursor hvisits _
  refine (throughout_lift henter).bind fun _ => ?_
  refine Throughout.bind (Throughout.attempt ?_) fun outcome => throughout_lift ?_
  · refine hbody.attempt.bind fun outcome => ?_
    refine (throughout_conclude hvisits _ outcome).bind fun _ => ?_
    exact (throughout_lift (henduring.finished _)).bind fun failure? =>
      throughout_conclude hvisits _ _
  · exact (upholds_setCursor hvisits _).bind fun _ => upholds_ofExcept outcome

theorem throughout_traceTurn (henduring : Enduring settings P)
    (hbody : body.Throughout settings P) (window : Window) (next : Int) :
    (traceTurn body window next).Throughout settings P := by
  have hvisits := henduring.stable.visits
  refine (throughout_lift (upholds_fetch henduring.retrieval window next)).bind fun fetched => ?_
  refine (throughout_record _ _).bind fun _ => ?_
  split
  · exact (throughout_traceVisit henduring hbody _).bind fun _ => throughout_pure _
  · refine throughout_lift (Upholds.bind ?_ fun _ => upholds_fail _)
    exact (sustains_report hvisits.settles _ trivial).upholds
  · exact (throughout_lift (upholds_settle hvisits _ _)).bind fun _ => throughout_pure _

theorem throughout_trace (henduring : Enduring settings P) (hbody : body.Throughout settings P)
    (first : Int) (last : Option Int) : (trace body first last).Throughout settings P := by
  have hvisits (patience : Nat) (window : Window) (next : Int) :
      (traceFrom body last patience window next).Throughout settings P := by
    induction patience generalizing window next with
    | zero =>
        rw [traceFrom]
        split
        · exact throughout_pure ()
        · exact throughout_lift maintains_giveUp
    | succ patience ih =>
        rw [traceFrom]
        split
        · exact throughout_pure ()
        · exact (throughout_traceTurn henduring hbody window next).bind fun follow =>
            ih follow.1 follow.2
  have hsettings : (Run.settings : Run σ _).Upholds settings P := fun _ hstate => ⟨hstate, trivial⟩
  exact (throughout_lift hsettings).bind fun _ => hvisits _ _ first

end BlockRange

namespace ContractFilter

theorem throughout_trace (hstable : Stable settings P) (hbody : body.Throughout settings P)
    (address : Operand) (reads : List MemberRead) :
    (trace address reads body).Throughout settings P := by
  refine Throughout.bind (Throughout.attempt ?_) fun outcome => throughout_lift ?_
  · exact (throughout_lift (sustains_reads hstable.operands address reads).upholds).bind fun _ =>
      hbody
  · exact (upholds_erase hstable _).bind fun _ => upholds_ofExcept outcome

end ContractFilter

theorem throughout_traceWhen (hbody : body.Throughout settings P) (condition : Value) :
    (traceWhen condition body).Throughout settings P := by
  unfold traceWhen
  split
  · exact hbody
  · exact throughout_pure ()
  · exact throughout_lift (upholds_fail _)

namespace Instruction

theorem throughout_of_isSimple (hstable : Stable settings P) {instruction : Instruction Empty}
    (hsimple : instruction.IsSimple) : (trace instruction).Throughout settings P := by
  have htrace : (trace instruction : Traced σ Unit) = lift (instruction.execute Empty.elim) := by
    cases instruction <;> first | exact hsimple.elim | simp [trace]
  rw [htrace]
  exact throughout_lift
    (sustains_simple hstable.operands hstable.emitted Empty.elim hsimple).upholds

mutual

theorem throughout_trace (henduring : Enduring settings P) : ∀ instruction : Instruction Empty,
    (trace instruction).Throughout settings P
  | .blocks first last body => by
      have hoperands := henduring.stable.operands
      rw [trace]
      refine (throughout_lift ((upholds_evaluate hoperands first).bind fun _ =>
        upholds_ofExcept _)).bind fun lower => ?_
      refine (throughout_lift ((upholds_evaluate? hoperands last).bind fun _ =>
        upholds_ofExcept _)).bind fun upper => ?_
      exact BlockRange.throughout_trace henduring (throughout_traceAll henduring body) lower upper
  | .transactions senders recipients body => by
      have hoperands := henduring.stable.operands
      rw [trace]
      refine (throughout_lift
        (sustains_evaluateAddresses hoperands _ senders).upholds).bind fun _ => ?_
      refine (throughout_lift
        (sustains_evaluateAddresses hoperands _ recipients).upholds).bind fun _ => ?_
      exact TransactionFilter.throughout_trace henduring.stable.visits
        (throughout_traceAll henduring body) _ _
  | .logEntries event emitters body => by
      rw [trace]
      refine (throughout_lift
        (sustains_evaluateAddresses henduring.stable.operands _ emitters).upholds).bind fun _ => ?_
      exact LogEntryFilter.throughout_trace henduring.stable (throughout_traceAll henduring body)
        event _
  | .when condition body => by
      rw [trace]
      exact (throughout_lift (upholds_evaluate henduring.stable.operands condition)).bind
        fun value => throughout_traceWhen (throughout_traceAll henduring body) value
  | .contract address reads body => by
      rw [trace]
      exact ContractFilter.throughout_trace henduring.stable (throughout_traceAll henduring body)
        address reads
  | .assign _ _ | .call _ _ _ | .exportRow _ _ | .exportLine _ | .exportEvent _ _ _ =>
    throughout_of_isSimple henduring.stable trivial

/-- What the single steps of instructions maintain holds throughout them, however they end. -/
theorem throughout_traceAll (henduring : Enduring settings P) :
    ∀ instructions : List (Instruction Empty), (traceAll instructions).Throughout settings P
  | [] => by
      rw [traceAll]
      exact throughout_pure ()
  | instruction :: rest => by
      rw [traceAll]
      exact (throughout_trace henduring instruction).bind fun _ =>
        throughout_traceAll henduring rest

end

end Instruction

namespace Program

theorem throughout_traceInstructions (henduring : Enduring settings P) (program : Program Empty) :
    (traceInstructions program).Throughout settings P := by
  induction program with
  | nil => exact throughout_pure ()
  | cons instruction rest ih =>
      rw [traceInstructions]
      exact (Instruction.throughout_trace henduring instruction).attempt.bind fun outcome =>
        (throughout_record _ outcome).bind fun _ =>
          (throughout_lift (upholds_ofExcept outcome)).bind fun _ => ih

theorem concluded_of_reported (hvisits : VisitStable settings P) {state : RunState σ}
    (hstate : P state) (outcome : Except Error Unit) : P (concluded settings outcome state) := by
  unfold concluded
  split
  · exact hstate
  · exact hstate
  · exact hvisits.reported state _ _ hstate

variable {program : Program Empty} {start : RunState σ}

/-- What the single steps of instructions maintain holds where the instructions of a program have
ended, and so it does when the sinks end the run. -/
theorem kept_of_attempt (henduring : Enduring settings P) (hstart : P start)
    {outcome : Except Error Unit} {middle : RunState σ}
    (hinstructions : (Instruction.executeAll Empty.elim program).attempt.run settings start =
      .ok outcome middle) :
    Kept P ((traceInstructions program).endings settings start)
      (concluded settings outcome middle) := by
  have hends := (throughout_traceInstructions henduring program).attempt [] start
    ⟨by simp, hstart⟩
  rw [Traced.run_attempt, run_traceInstructions, hinstructions] at hends
  exact ⟨hends.1, concluded_of_reported henduring.stable.visits hends.2 outcome⟩

/-- It holds at the end of every task that is done before. -/
theorem holds_of_mem_endings (henduring : Enduring settings P) (hstart : P start)
    {ending : Ending σ} (hending : ending ∈ (trace program).endings settings start)
    (htask : ending.task ≠ .lastExport) : P ending.state := by
  have hends := (throughout_traceInstructions henduring program).attempt [] start
    ⟨by simp, hstart⟩
  rw [Traced.run_attempt, run_traceInstructions] at hends
  cases hinstructions :
      (Instruction.executeAll Empty.elim program).attempt.run settings start with
  | ok outcome middle =>
      rw [endings_of_attempt hinstructions] at hending
      rcases List.mem_append.mp hending with hearlier | hlast
      · exact (kept_of_attempt henduring hstart hinstructions).1 ending hearlier
      · obtain rfl := List.mem_singleton.mp hlast
        exact absurd rfl htask
  | failed | unfinished =>
      rw [hinstructions] at hends
      refine hends.1 ending ?_
      rwa [trace, endings_bind_of_not_ok] at hending
      rw [Traced.run_attempt, run_traceInstructions, hinstructions]
      rfl

end Program

end ChainExtract
