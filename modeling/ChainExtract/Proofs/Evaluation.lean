import ChainExtract.Program.Execute
import ChainExtract.Proofs.Ensures
import ChainExtract.Proofs.Failures

/-! # What evaluating operands sustains

Operands assign variables and ask about contracts, and do nothing else to a state. They
always end, and when they fail the failure is one of their own: it neither stops the run
nor says that the chain is lost.
-/

namespace ChainExtract

variable {σ α : Type}

/-- The failure neither stops the run nor says that the chain is lost. -/
def Error.IsOrdinary : Error → Prop
  | .aborted _ | .discontinuity _ _ => False
  | _ => True

theorem Error.IsOrdinary.isAborted {error : Error} (hordinary : error.IsOrdinary) :
    error.isAborted = false := by
  cases error <;> first | rfl | exact hordinary.elim

theorem Error.IsUnsuitable.isOrdinary {error : Error} (hunsuitable : error.IsUnsuitable) :
    error.IsOrdinary := by
  cases error <;> trivial

namespace Run

/-- What evaluating operands does to a state maintains the property. -/
structure OperandStable (settings : Settings σ) (P : RunState σ → Prop) : Prop where
  assigned : ∀ state name value, P state → P
    { state with
      store := state.store.set name value
      journal := .assigned name value :: state.journal }
  queried : ∀ state query, P state → P
    { state with
      chain := (settings.client.member query state.chain).2
      journal := .member query (settings.client.member query state.chain).1 :: state.journal }

/-- The failures of calls are among those that `E` says. -/
structure Expects (P : RunState σ → Prop) (E : Error → Prop) : Prop where
  unsuitable : ∀ error, error.IsUnsuitable → E error
  refused : ∀ words failure, E (.ofFailure words failure)
  closed : E .readerClosed
  unset : ∀ state, P state → state.cursor.block = none → E (.unsetCursor "readContract" .block)

theorem expects_ordinary {P : RunState σ → Prop} : Expects P Error.IsOrdinary where
  unsuitable := fun _ hunsuitable => hunsuitable.isOrdinary
  refused := fun _ _ => trivial
  closed := trivial
  unset := fun _ _ _ => trivial

variable {settings : Settings σ} {P U : RunState σ → Prop} {E : Error → Prop}

theorem sustains_assign (hstable : OperandStable settings P) (name : String) (value : Value) :
    (assign name value).Sustains settings P E U :=
  fun state hstate => hstable.assigned state name value hstate

theorem sustains_assignAll (hstable : OperandStable settings P) (values : List (String × Value)) :
    (values.forM fun (name, value) => Run.assign name value).Sustains settings P E U := by
  induction values with
  | nil => exact sustains_pure ()
  | cons first rest ih => exact (sustains_assign hstable first.1 first.2).bind fun _ => ih

theorem exists_assignAll (values : List (String × Value)) (settings : Settings σ)
    (state : RunState σ) :
    ∃ after, (values.forM fun (name, value) => Run.assign name value).run settings state =
      .ok () after := by
  induction values generalizing state with
  | nil => exact ⟨state, rfl⟩
  | cons first rest ih => exact ih _

theorem sustains_query (hstable : OperandStable settings P) (hexpects : Expects P E)
    (query : MemberQuery) : (Run.query query).Sustains settings P E U := by
  intro state hstate
  have hqueried := hstable.queried state query hstate
  rw [Run.query, run_request]
  cases hclosed : state.closed with
  | true => exact ⟨hstate, hexpects.closed⟩
  | false =>
      rw [hclosed] at hqueried
      rcases hask : settings.client.member query state.chain with ⟨failure | result, chain⟩ <;>
        rw [hask] at hqueried
      · exact ⟨hqueried, hexpects.refused _ failure⟩
      · exact hqueried

theorem sustains_invokeInto (hstable : OperandStable settings P) (hexpects : Expects P E)
    (method : Method) (arguments : List Value) (result : Option String) :
    (method.invokeInto arguments result).Sustains settings P E U := by
  have hcomputed {β : Type} {outcome : Except Error β}
      (houtcome : FailsOnly Error.IsUnsuitable outcome) :
      (ofExcept outcome : Run σ β).Sustains settings P E U :=
    sustains_ofExcept (houtcome.imp hexpects.unsuitable)
  have hread : (Method.readState arguments : Run σ Value).Sustains settings P E U := by
    apply (hcomputed (Arguments.failsOnly_addr _ _)).bind
    intro contract
    apply (hcomputed (Arguments.failsOnly_str _ _)).bind
    intro member
    apply (hcomputed (Arguments.failsOnly_list _ _)).bind
    intro inputs
    apply (hcomputed (Arguments.failsOnly_strings _ _)).bind
    intro types
    apply ensures_state.bind
    rintro found state ⟨hstate, rfl⟩
    cases hblock : found.cursor.block with
    | none => exact ⟨hstate, hexpects.unset found hstate hblock⟩
    | some block =>
        exact (sustains_query hstable hexpects _).bind (fun _ => sustains_pure _) found hstate
  have hinvoke : (method.invoke arguments : Run σ Value).Sustains settings P E U := by
    apply (hcomputed (method.failsOnly_validate arguments)).bind
    intro _
    unfold Method.perform
    split
    next operation _ => exact hcomputed (operation.failsOnly_apply arguments)
    · exact hread
    · exact sustains_pure _
  apply hinvoke.bind
  intro value
  cases result with
  | none => exact sustains_pure value
  | some name => exact (sustains_assign hstable name value).bind fun _ => sustains_pure value

theorem sustains_lookup (name : String) :
    (lookup name).Sustains settings P Error.IsOrdinary U := by
  apply ensures_state.bind
  rintro found state ⟨hstate, rfl⟩
  refine sustains_ofExcept ((found.store.failsOnly_get name).imp ?_) found hstate
  rintro _ ⟨rfl, _⟩
  trivial

theorem sustains_valueAt (name : String) :
    (do Run.ofExcept (ChainVariable.valueAt name (← Run.state).cursor)).Sustains settings P
      Error.IsOrdinary U := by
  apply ensures_state.bind
  rintro found state ⟨hstate, rfl⟩
  unfold ChainVariable.valueAt
  cases ChainVariable.find? name with
  | none => exact sustains_fail trivial found hstate
  | some var =>
      refine sustains_ofExcept ((var.failsOnly_resolve found.cursor).imp ?_) found hstate
      rintro _ ⟨rfl, _⟩
      trivial

mutual

theorem sustains_evaluate (hstable : OperandStable settings P) : ∀ operand : Operand,
    (operand.evaluate : Run σ Value).Sustains settings P Error.IsOrdinary U
  | .literal value => by
      rw [Operand.evaluate]
      exact sustains_pure value
  | .stored name => by
      rw [Operand.evaluate]
      exact sustains_lookup name
  | .chain name => by
      rw [Operand.evaluate]
      exact sustains_valueAt name
  | .call method arguments result => by
      rw [Operand.evaluate]
      exact (sustains_evaluateAll hstable arguments).bind fun values =>
        sustains_invokeInto hstable expects_ordinary method values result
  | .list items => by
      rw [Operand.evaluate]
      exact (sustains_evaluateAll hstable items).bind fun _ => sustains_pure _

theorem sustains_evaluateAll (hstable : OperandStable settings P) : ∀ operands : List Operand,
    (Operand.evaluateAll operands : Run σ (List Value)).Sustains settings P Error.IsOrdinary U
  | [] => by
      rw [Operand.evaluateAll]
      exact sustains_pure _
  | operand :: operands => by
      rw [Operand.evaluateAll]
      apply (sustains_evaluate hstable operand).bind
      intro value
      exact (sustains_evaluateAll hstable operands).bind fun _ => sustains_pure _

end

theorem sustains_evaluate? (hstable : OperandStable settings P) (operand? : Option Operand) :
    (Operand.evaluate? operand? : Run σ (Option Value)).Sustains settings P Error.IsOrdinary U := by
  cases operand? with
  | none => exact sustains_pure none
  | some operand => exact (sustains_evaluate hstable operand).bind fun _ => sustains_pure _

theorem sustains_evaluateAddresses (hstable : OperandStable settings P) (subject : String)
    (operand? : Option Operand) :
    (evaluateAddresses subject operand?).Sustains settings P Error.IsOrdinary U :=
  (sustains_evaluate? hstable operand?).bind fun value? => sustains_ofExcept
    ((AddressSet.failsOnly_ofValue subject value?).imp fun _ h => h.isOrdinary)

theorem sustains_evaluateCells (hstable : OperandStable settings P)
    (columns : List (String × Operand)) :
    (Operand.evaluateCells columns : Run σ _).Sustains settings P Error.IsOrdinary U := by
  induction columns with
  | nil => exact sustains_pure _
  | cons column columns ih =>
      exact (sustains_evaluate hstable column.2).bind fun _ => ih.bind fun _ => sustains_pure _

theorem sustains_evaluateAttributes (hstable : OperandStable settings P)
    (attributes : List AttributeOperand) :
    (Operand.evaluateAttributes attributes : Run σ _).Sustains settings P Error.IsOrdinary U := by
  induction attributes with
  | nil => exact sustains_pure _
  | cons entry attributes ih =>
      apply (sustains_evaluate hstable entry.value).bind
      intro value
      have hconverted := XesValue.failsOnly_ofValue entry.type value
      exact (sustains_ofExcept (hconverted.imp fun _ h => h.isOrdinary)).bind fun _ =>
        ih.bind fun _ => sustains_pure _

/-- What is done with the bounds of a range, once they have been evaluated. -/
theorem sustains_bounds (hstable : OperandStable settings P)
    (hordinary : ∀ error, Error.IsOrdinary error → E error) {f : Int → Option Int → Run σ α}
    (hf : ∀ first last, (f first last).Sustains settings P E U) (first : Operand)
    (last : Option Operand) :
    (do
      let first ← Run.ofExcept (BlockRange.bound (← first.evaluate))
      let last ← Run.ofExcept (BlockRange.bound? (← Operand.evaluate? last))
      f first last).Sustains settings P E U := by
  have hcomputed {β : Type} {outcome : Except Error β}
      (houtcome : FailsOnly Error.IsUnsuitable outcome) :
      (ofExcept outcome : Run σ β).Sustains settings P E U :=
    sustains_ofExcept (houtcome.imp fun error h => hordinary error h.isOrdinary)
  apply ((sustains_evaluate hstable first).imp hordinary fun _ h => h).bind
  intro lower
  apply (hcomputed (BlockRange.failsOnly_bound lower)).bind
  intro start
  apply ((sustains_evaluate? hstable last).imp hordinary fun _ h => h).bind
  intro upper
  exact (hcomputed (BlockRange.failsOnly_bound? upper)).bind fun stop => hf start stop

theorem sustains_target (address : Value) :
    (ContractFilter.target address : Run σ _).Sustains settings P Error.IsOrdinary U := by
  unfold ContractFilter.target
  split
  · apply ensures_state.bind
    rintro found state ⟨hstate, rfl⟩
    split
    · exact sustains_fail trivial found hstate
    · exact sustains_pure _ found hstate
  · exact sustains_fail trivial

theorem sustains_read (hstable : OperandStable settings P) (target : Address × Int)
    (read : MemberRead) :
    (ContractFilter.read target read).Sustains settings P Error.IsOrdinary U := by
  apply (sustains_evaluateAll hstable read.inputs).bind
  intro inputs
  refine Ensures.bind ?_ fun values => sustains_assignAll hstable _
  apply (sustains_query hstable expects_ordinary _).bind
  intro values
  split
  · exact (sustains_fail trivial).bind fun _ => sustains_pure _
  · exact sustains_pure _

/-- Everything that a contract filter asks and sets before its body. -/
theorem sustains_reads (hstable : OperandStable settings P) (address : Operand)
    (reads : List MemberRead) :
    (do
      let target ← ContractFilter.target (← address.evaluate)
      reads.forM (ContractFilter.read target)).Sustains settings P Error.IsOrdinary U := by
  apply (sustains_evaluate hstable address).bind
  intro value
  apply (sustains_target value).bind
  intro target
  induction reads with
  | nil => exact sustains_pure ()
  | cons read reads ih => exact (sustains_read hstable target read).bind fun _ => ih

end Run

namespace Instruction

open Run

variable {χ : Type} {settings : Settings σ} {P U : RunState σ → Prop}

/-- The instruction evaluates operands, and at most assigns or exports what they give. -/
def IsSimple : Instruction χ → Prop
  | .assign _ _ | .call _ _ _ | .exportRow _ _ | .exportLine _ | .exportEvent _ _ _ => True
  | .blocks _ _ _ | .transactions _ _ _ | .logEntries _ _ _ | .when _ _ | .contract _ _ _
  | .further _ => False

theorem sustains_simple (hstable : OperandStable settings P)
    (hemitted : ∀ state record, P state → P
      { state with
        sinks := state.sinks.map (·.add record)
        journal := .exported record :: state.journal })
    (further : χ → Run σ Unit) {instruction : Instruction χ} (hsimple : instruction.IsSimple) :
    (instruction.execute further).Sustains settings P Error.IsOrdinary U := by
  have hemit (record : Record) : (emit record).Sustains settings P Error.IsOrdinary U :=
    fun state hstate => hemitted state record hstate
  cases instruction with
  | assign target value =>
      rw [execute]
      exact (sustains_evaluate hstable value).bind fun _ => sustains_assign hstable target _
  | call method arguments result =>
      rw [execute]
      apply (sustains_evaluateAll hstable arguments).bind
      intro values
      exact (sustains_invokeInto hstable expects_ordinary method values result).bind fun _ =>
        sustains_pure _
  | exportRow table columns =>
      rw [execute]
      exact (sustains_evaluateCells hstable columns).bind fun _ => hemit _
  | exportLine parts =>
      rw [execute]
      exact (sustains_evaluateAll hstable parts).bind fun _ => hemit _
  | exportEvent trace event attributes =>
      rw [execute]
      exact (sustains_evaluate hstable trace).bind fun _ =>
        (sustains_evaluate hstable event).bind fun _ =>
          (sustains_evaluateAttributes hstable attributes).bind fun _ => hemit _
  | _ => exact hsimple.elim

end Instruction

end ChainExtract
