import ChainExtract.Proofs.Evaluation

/-! # What instructions uphold

A property of states that pointing at other items and reporting failures maintain is
upheld by visits of items whatever their body does with it; one that variables, records
and answers about contracts do not disturb either is upheld by all instructions without
block ranges of their own.
-/

namespace ChainExtract

variable {σ χ α β : Type}

namespace Run

/-- A run maintains a property, and nothing is said about its results and failures. -/
abbrev Upholds (settings : Settings σ) (P : RunState σ → Prop) (x : Run σ α) : Prop :=
  x.Maintains settings P (fun _ => True) fun _ => True

/-- What visits of items do to a state besides running their body maintains the property. -/
structure VisitStable (settings : Settings σ) (P : RunState σ → Prop) : Prop where
  cursor : ∀ state cursor, P state → P { state with cursor }
  reported : ∀ state message error, P state → P (reported message error settings state)

/-- What instructions other than block ranges do to a state maintains the property. -/
structure Stable (settings : Settings σ) (P : RunState σ → Prop) : Prop where
  visits : VisitStable settings P
  operands : OperandStable settings P
  erased : ∀ state names, P state → P { state with store := state.store.eraseAll names }
  emitted : ∀ state record, P state → P
    { state with
      sinks := state.sinks.map (·.add record)
      journal := .exported record :: state.journal }

variable {settings : Settings σ} {P : RunState σ → Prop} {Q : α → Prop}

theorem Maintains.upholds {E : Error → Prop} {x : Run σ α} (hx : x.Maintains settings P Q E) :
    x.Upholds settings P :=
  hx.imp (fun _ _ => trivial) fun _ _ => trivial

theorem Upholds.bind {R : β → Prop} {x : Run σ α} {f : α → Run σ β} (hx : x.Upholds settings P)
    (hf : ∀ result, (f result).Maintains settings P R fun _ => True) :
    (x >>= f).Maintains settings P R fun _ => True :=
  Maintains.bind hx fun result _ => hf result

theorem Upholds.attempt {x : Run σ α} (hx : x.Upholds settings P) :
    x.attempt.Upholds settings P := by
  have houtcome : x.attempt.Maintains settings P _ fun _ => True := Maintains.attempt hx
  exact houtcome.upholds

theorem Sustains.upholds {E : Error → Prop} {x : Run σ α} (hx : x.Sustains settings P E P) :
    x.Upholds settings P :=
  hx.maintains.upholds

theorem Upholds.sustains {x : Run σ α} (hx : x.Upholds settings P) :
    x.Sustains settings P (fun _ => True) P :=
  (Maintains.ensures hx fun _ h => h).imp (fun _ h => h) (fun _ _ h => h.1) (fun _ _ h => h)
    fun _ h => h

theorem VisitStable.settles (hstable : VisitStable settings P) :
    Settles settings P fun _ => True :=
  ⟨fun state message error hstate _ => hstable.reported state message error hstate,
    fun _ _ => trivial⟩

theorem upholds_pure (result : α) : (Pure.pure result : Run σ α).Upholds settings P :=
  maintains_pure trivial

theorem upholds_fail (error : Error) : (fail error : Run σ α).Upholds settings P :=
  maintains_fail trivial

theorem upholds_ofExcept (outcome : Except Error α) : (ofExcept outcome).Upholds settings P :=
  maintains_ofExcept (fun _ _ => trivial) fun _ _ => trivial

theorem upholds_state : (Run.state : Run σ _).Upholds settings P :=
  (maintains_state (E := fun _ => True)).upholds

section Visits

theorem upholds_setCursor (hstable : VisitStable settings P) (cursor : Cursor) :
    (setCursor cursor).Upholds settings P :=
  maintains_modify fun state => hstable.cursor state cursor

theorem upholds_settle (hstable : VisitStable settings P) (message : String) (error : Error) :
    (settle message error).Upholds settings P :=
  (sustains_settle hstable.settles message trivial).upholds

theorem upholds_conclude (hstable : VisitStable settings P) (message : String)
    (outcome : Except Error Unit) : (conclude message outcome).Upholds settings P :=
  (sustains_conclude hstable.settles message fun _ _ => trivial).upholds

theorem upholds_transactions (hstable : VisitStable settings P) {body : Run σ Unit}
    (hbody : body.Upholds settings P) (senders recipients : AddressSet) :
    (TransactionFilter.run senders recipients body).Upholds settings P := by
  apply upholds_state.bind
  intro state
  split
  · exact upholds_fail _
  · exact (TransactionFilter.sustains_visitAll hstable.settles
      (fun state _ cursor hstate _ => hstable.cursor state cursor hstate) (fun _ _ _ _ _ => trivial)
      (fun _ => hbody.sustains) (fun state => hstable.cursor state _) _).upholds

theorem upholds_visitMatching (hstable : VisitStable settings P) {visit : Nat → Run σ Unit}
    (hvisit : ∀ index, (visit index).Upholds settings P) (event : EventDecl)
    (emitters : AddressSet) :
    (LogEntryFilter.visitMatching event emitters visit).Upholds settings P := by
  apply upholds_state.bind
  intro state
  split
  · exact upholds_fail _
  · exact (LogEntryFilter.sustains_visitEach hstable.settles (fun index => (hvisit index).sustains)
      (fun state => hstable.cursor state _) _ _).upholds

theorem upholds_enter (hstable : VisitStable settings P) (event : EventDecl) (index : Nat) :
    (LogEntryFilter.enter event index).Upholds settings P := by
  apply upholds_state.bind
  intro state
  apply (upholds_ofExcept _).bind
  intro cursor
  apply (upholds_setCursor hstable cursor).bind
  intro _
  apply upholds_state.bind
  intro pointing
  split
  · exact upholds_ofExcept _
  · exact upholds_pure _

end Visits

section Instructions

theorem upholds_assignAll (hstable : OperandStable settings P) (values : List (String × Value)) :
    (values.forM fun (name, value) => Run.assign name value).Upholds settings P :=
  (sustains_assignAll (E := fun _ => True) hstable values).upholds

theorem upholds_erase (hstable : Stable settings P) (names : List String) :
    (erase names).Upholds settings P :=
  maintains_modify fun state => hstable.erased state names

theorem upholds_query (hstable : OperandStable settings P) (query : MemberQuery) :
    (Run.query query).Upholds settings P :=
  (sustains_query hstable expects_ordinary query).upholds

theorem upholds_evaluate (hstable : OperandStable settings P) (operand : Operand) :
    (operand.evaluate : Run σ Value).Upholds settings P :=
  (sustains_evaluate hstable operand).upholds

theorem upholds_evaluate? (hstable : OperandStable settings P) (operand? : Option Operand) :
    (Operand.evaluate? operand? : Run σ (Option Value)).Upholds settings P :=
  (sustains_evaluate? hstable operand?).upholds

theorem upholds_visitLogEntry (hstable : Stable settings P) (event : EventDecl)
    {body : Run σ Unit} (hbody : body.Upholds settings P) (index : Nat) :
    (LogEntryFilter.visit event body index).Upholds settings P := by
  apply (upholds_enter hstable.visits event index).bind
  intro decoded
  apply (upholds_assignAll hstable.operands decoded).bind
  intro _
  apply hbody.attempt.bind
  intro outcome
  exact (upholds_erase hstable _).bind fun _ => upholds_ofExcept outcome

theorem upholds_target (address : Value) :
    (ContractFilter.target address : Run σ _).Upholds settings P :=
  (sustains_target address).upholds

theorem upholds_contract (hstable : Stable settings P) (address : Operand)
    (reads : List MemberRead) {body : Run σ Unit} (hbody : body.Upholds settings P) :
    (ContractFilter.run address reads body).Upholds settings P := by
  have hrun : (ContractFilter.readAndRun address reads body).Upholds settings P := by
    have hreads := (sustains_reads hstable.operands address reads).upholds.bind fun _ => hbody
    simpa only [ContractFilter.readAndRun, bind_assoc] using hreads
  apply hrun.attempt.bind
  intro outcome
  exact (upholds_erase hstable _).bind fun _ => upholds_ofExcept outcome

theorem upholds_runWhen (condition : Value) {body : Run σ Unit} (hbody : body.Upholds settings P) :
    (runWhen condition body).Upholds settings P := by
  unfold runWhen
  split
  · exact hbody
  · exact upholds_pure ()
  · exact upholds_fail _

end Instructions

end Run

namespace Instruction

mutual

/-- The instruction visits no blocks, and neither does anything nested in it. -/
def RangeFree : Instruction χ → Prop
  | .blocks _ _ _ => False
  | .transactions _ _ body | .logEntries _ _ body | .when _ body | .contract _ _ body =>
    RangeFreeAll body
  | .assign _ _ | .call _ _ _ | .exportRow _ _ | .exportLine _ | .exportEvent _ _ _ | .further _ =>
    True

def RangeFreeAll : List (Instruction χ) → Prop
  | [] => True
  | instruction :: rest => RangeFree instruction ∧ RangeFreeAll rest

end

open Run

variable {settings : Settings σ} {P : RunState σ → Prop} {further : χ → Run σ Unit}

mutual

theorem upholds_execute (hstable : Stable settings P)
    (hfurther : ∀ instruction, (further instruction).Upholds settings P) :
    ∀ instruction : Instruction χ, instruction.RangeFree →
      (instruction.execute further).Upholds settings P
  | .assign _ _, _ | .call _ _ _, _ | .exportRow _ _, _ | .exportLine _, _
  | .exportEvent _ _ _, _ =>
    Sustains.upholds (sustains_simple hstable.operands hstable.emitted further trivial)
  | .transactions senders recipients body, hfree => by
      rw [execute]
      apply (sustains_evaluateAddresses hstable.operands _ senders).upholds.bind
      intro senders
      apply (sustains_evaluateAddresses hstable.operands _ recipients).upholds.bind
      intro recipients
      exact upholds_transactions hstable.visits
        (upholds_executeAll hstable hfurther body hfree) senders recipients
  | .logEntries event emitters body, hfree => by
      rw [execute]
      apply (sustains_evaluateAddresses hstable.operands _ emitters).upholds.bind
      intro emitters
      exact upholds_visitMatching hstable.visits
        (upholds_visitLogEntry hstable event (upholds_executeAll hstable hfurther body hfree))
        event emitters
  | .when condition body, hfree => by
      rw [execute]
      apply (upholds_evaluate hstable.operands condition).bind
      intro value
      exact upholds_runWhen value (upholds_executeAll hstable hfurther body hfree)
  | .contract address reads body, hfree => by
      rw [execute]
      exact upholds_contract hstable address reads (upholds_executeAll hstable hfurther body hfree)
  | .further instruction, _ => by
      rw [execute]
      exact hfurther instruction

/-- Instructions without block ranges uphold what their single steps maintain. -/
theorem upholds_executeAll (hstable : Stable settings P)
    (hfurther : ∀ instruction, (further instruction).Upholds settings P) :
    ∀ instructions : List (Instruction χ), RangeFreeAll instructions →
      (executeAll further instructions).Upholds settings P
  | [], _ => by
      rw [executeAll]
      exact upholds_pure ()
  | instruction :: rest, hfree => by
      rw [executeAll]
      exact (upholds_execute hstable hfurther instruction hfree.1).bind fun _ =>
        upholds_executeAll hstable hfurther rest hfree.2

end

end Instruction

end ChainExtract
