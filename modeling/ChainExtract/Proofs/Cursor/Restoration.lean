import ChainExtract.Proofs.BlockRange.Retrieval
import ChainExtract.Proofs.Cursor.Placement

/-! # Visits restore the cursor

Where the cursor is set for the place of an instruction, the instruction leaves it as it
was, however it ends. Clearing a cursor clears the ones below it too, so this rests on the
nesting of the visits.
-/

namespace ChainExtract

variable {σ α : Type} {settings : Settings σ}

/-- An item that is visited: a block, or the position of an item in what it belongs to. -/
inductive Item where
  | block (block : Block)
  | transaction (index : Nat)
  | logEntry (index : Nat)

/-- The cursor in a visit: it points at the item, and at nothing below. -/
def Cursor.visiting (cursor : Cursor) : Item → Cursor
  | .block block => { block := some block }
  | .transaction index => { cursor with transactionAt := some index, logEntryAt := none }
  | .logEntry index => { cursor with logEntryAt := some index }

namespace Run

/-- From a cursor a run ends with the same cursor. Only outside of all visits it may not end. -/
abbrev Restores (settings : Settings σ) (place : Option Scope) (cursor : Cursor) (x : Run σ α) :
    Prop :=
  x.Sustains settings (·.cursor = cursor) (fun _ => True) fun _ => place = none

theorem settles_cursor (cursor : Cursor) :
    Settles settings (·.cursor = cursor) fun _ => True :=
  ⟨fun _ _ _ hstate _ => hstate, fun _ _ => trivial⟩

theorem operandStable_cursor (cursor : Cursor) :
    OperandStable settings (·.cursor = cursor) :=
  ⟨fun _ _ _ hstate => hstate, fun _ _ hstate => hstate⟩

variable {place : Option Scope} {cursor : Cursor} {body : Run σ Unit}

theorem Sustains.restores {x : Run σ α}
    (hx : x.Sustains settings (·.cursor = cursor) Error.IsOrdinary fun _ => place = none) :
    x.Restores settings place cursor :=
  hx.imp (fun _ _ => trivial) fun _ h => h

theorem restores_blocks (hbody : ∀ block, body.Restores settings (some .block) (.atBlock block))
    (first : Int) (last : Option Int) :
    (BlockRange.visitAll body first last).Restores settings none .empty := by
  have hsteps : BlockRange.RangeSteps settings (·.cursor = .empty)
      (fun block state => state.cursor = .atBlock block) (fun _ => True) (fun _ => True)
      (fun _ => True) := {
    retrieval := ⟨fun _ hstate => hstate, fun _ _ hstate => hstate, fun _ _ _ hstate => hstate⟩
    outside := settles_cursor .empty
    inside := ⟨fun _ _ _ _ _ => trivial, fun _ _ => trivial⟩
    enter := fun _ _ _ => rfl
    leave := fun _ _ => rfl
    finished := fun _ _ _ => ⟨trivial, fun _ _ => trivial⟩
    closed := trivial
    refused := fun _ _ => trivial
    lost := fun _ _ => trivial
    unfinished := fun _ _ => trivial }
  refine Sustains.imp (BlockRange.sustains_visitAll hsteps (fun block => ?_) first last)
    (fun _ h => h) fun _ _ => rfl
  exact Ensures.imp (hbody block) (fun _ h => h) (fun _ _ _ => trivial)
    (fun _ _ _ => ⟨trivial, trivial⟩) fun _ _ => trivial

theorem restores_visitTransactions (hset : cursor.SetFor (some .block))
    (hbody : ∀ next : Cursor, next.SetFor (some .transaction) →
      body.Restores settings (some .transaction) next) (indices : List Nat) :
    (TransactionFilter.visitAll body indices).Restores settings (some .block) cursor := by
  refine TransactionFilter.sustains_visitAll (settles_cursor cursor)
    (B := fun index state => state.cursor = cursor.visiting (.transaction index) ∧
      state.cursor.SetFor (some .transaction))
    (I := fun state => state.cursor.withoutTransaction = cursor) ?_ (fun _ _ _ _ _ => trivial)
    (fun index state hstate => ?_) (fun _ hstate => hstate) indices
  · rintro state index next rfl hnext
    refine ⟨?_, hset.atTransaction hnext⟩
    obtain ⟨_, _, _, rfl⟩ := Cursor.of_atTransaction_ok hnext
    rfl
  · have hleave : state.cursor.withoutTransaction = cursor := by
      rw [hstate.1]
      exact hset.withoutTransaction
    exact (hbody _ hstate.2 state rfl).imp (fun _ _ hafter => hafter ▸ hleave)
      (fun _ _ hafter => ⟨hafter.1 ▸ hleave, trivial⟩) fun _ hnever => by cases hnever

theorem restores_transactions (hset : cursor.SetFor (some .block))
    (hbody : ∀ next : Cursor, next.SetFor (some .transaction) →
      body.Restores settings (some .transaction) next) (senders recipients : AddressSet) :
    (TransactionFilter.run senders recipients body).Restores settings (some .block) cursor := by
  apply ensures_state.bind
  rintro found state ⟨hstate, rfl⟩
  split
  · exact sustains_fail trivial found hstate
  · exact restores_visitTransactions hset hbody _ found hstate

theorem ensures_enter (hset : cursor.SetFor (some .transaction)) (event : EventDecl)
    (index : Nat) :
    (LogEntryFilter.enter event index).Ensures settings (·.cursor = cursor)
      (fun _ after => after.cursor = cursor.visiting (.logEntry index) ∧
        after.cursor.SetFor (some .logEntry))
      (fun _ after => after.cursor.withoutLogEntry = cursor ∧ True) fun _ => False := by
  have hleave : cursor.withoutLogEntry = cursor := hset.withoutLogEntry (by simp)
  apply ensures_state.bind
  rintro found state ⟨hstate, rfl⟩
  cases hnext : found.cursor.atLogEntry index with
  | error error => exact ⟨by rw [hstate, hleave], trivial⟩
  | ok next =>
      rw [hstate] at hnext
      have hlogEntry := hset.atLogEntry hnext
      obtain ⟨_, _, _, rfl⟩ := Cursor.of_atLogEntry_ok hnext
      simp only [run_bind, run_ofExcept_ok, setCursor, run_modify, run_state]
      split
      next entry _ =>
        cases event.decode entry.topics entry.data with
        | ok decoded => exact ⟨rfl, hlogEntry⟩
        | error => exact ⟨hleave, trivial⟩
      next => exact ⟨rfl, hlogEntry⟩

/-- A visit of a log entry leaves the cursor of its transaction as it was. -/
theorem ensures_visitLogEntry (hset : cursor.SetFor (some .transaction)) {event : EventDecl}
    (hbody : ∀ next : Cursor, next.SetFor (some .logEntry) →
      body.Restores settings (some .logEntry) next) (index : Nat) :
    (LogEntryFilter.visit event body index).Ensures settings (·.cursor = cursor)
      (fun _ after => after.cursor.withoutLogEntry = cursor)
      (fun _ after => after.cursor.withoutLogEntry = cursor ∧ True) fun _ => False := by
  refine (ensures_enter hset event index).bind fun decoded state hentered => ?_
  have hleave : state.cursor.withoutLogEntry = cursor := by
    rw [hentered.1]
    exact hset.withoutLogEntry (by simp)
  have hstable : OperandStable settings (·.cursor = state.cursor) :=
    operandStable_cursor state.cursor
  have hassigns := sustains_assignAll (E := fun _ => False) (U := fun _ => False) hstable decoded
  refine (Ensures.imp hassigns (fun _ h => h) (fun _ _ h => h) (fun _ _ hnever => hnever.2.elim)
    fun _ h => h).bind (fun _ => ?_) state rfl
  have hundone : (do
      let outcome ← body.attempt
      Run.erase (decoded.map Prod.fst)
      Run.ofExcept outcome).Restores settings (some .logEntry) state.cursor :=
    ensures_undone (hbody state.cursor hentered.2) fun _ hafter => hafter
  exact Ensures.imp hundone (fun _ h => h) (fun _ _ hafter => hafter ▸ hleave)
    (fun _ _ hafter => ⟨hafter.1 ▸ hleave, trivial⟩) fun _ hnever => by cases hnever

theorem restores_visitLogEntries (hset : cursor.SetFor (some .transaction)) (event : EventDecl)
    (hbody : ∀ next : Cursor, next.SetFor (some .logEntry) →
      body.Restores settings (some .logEntry) next) (indices : List Nat) :
    (LogEntryFilter.visitEach event.name (LogEntryFilter.visit event body) indices).Restores
      settings (some .transaction) cursor :=
  (LogEntryFilter.sustains_visitEach (settles_cursor cursor) (ensures_visitLogEntry hset hbody)
    (fun _ hstate => hstate) event.name indices).imp (fun _ h => h) fun _ hnever => hnever.elim

theorem restores_logEntries (hset : cursor.SetFor (some .transaction)) (event : EventDecl)
    (hbody : ∀ next : Cursor, next.SetFor (some .logEntry) →
      body.Restores settings (some .logEntry) next) (emitters : AddressSet) :
    (LogEntryFilter.run event emitters body).Restores settings (some .transaction) cursor := by
  apply ensures_state.bind
  rintro found state ⟨hstate, rfl⟩
  split
  · exact sustains_fail trivial found hstate
  · exact restores_visitLogEntries hset event hbody _ found hstate

theorem restores_contract (hbody : body.Restores settings place cursor) (address : Operand)
    (reads : List MemberRead) :
    (ContractFilter.run address reads body).Restores settings place cursor := by
  have hreads : (do
      let target ← ContractFilter.target (← address.evaluate)
      reads.forM (ContractFilter.read target)).Restores settings place cursor :=
    (sustains_reads (operandStable_cursor cursor) address reads).restores
  have hrun : (ContractFilter.readAndRun address reads body).Restores settings place cursor := by
    simpa only [ContractFilter.readAndRun, bind_assoc] using hreads.bind fun _ => hbody
  exact ensures_undone hrun fun _ hafter => hafter

theorem restores_runWhen (hbody : body.Restores settings place cursor) (condition : Value) :
    (runWhen condition body).Restores settings place cursor := by
  unfold runWhen
  split
  · exact hbody
  · exact sustains_pure ()
  · exact sustains_fail trivial

end Run

namespace Instruction

open Run

mutual

/-- An instruction leaves the cursor as it was, if that is set for its place. -/
theorem restores_execute : ∀ (instruction : Instruction Empty) {place : Option Scope}
    {cursor : Cursor}, instruction.FitsAt place → cursor.SetFor place →
    (instruction.execute Empty.elim).Restores settings place cursor
  | .assign _ _, _, cursor, _, _ | .call _ _ _, _, cursor, _, _ | .exportRow _ _, _, cursor, _, _
  | .exportLine _, _, cursor, _, _ | .exportEvent _ _ _, _, cursor, _, _ =>
    Sustains.restores (sustains_simple (operandStable_cursor cursor) (fun _ _ hstate => hstate)
      Empty.elim trivial)
  | .blocks first last body, place, cursor, ⟨hplace, hbody⟩, hset => by
      subst hplace
      obtain rfl := hset.eq_empty
      rw [execute]
      exact sustains_bounds (operandStable_cursor .empty) (fun _ _ => trivial)
        (restores_blocks fun block =>
          restores_executeAll body hbody (Cursor.setFor_atBlock block)) first last
  | .transactions senders recipients body, place, cursor, ⟨hplace, hbody⟩, hset => by
      subst hplace
      have hstable : OperandStable settings (·.cursor = cursor) := operandStable_cursor cursor
      rw [execute]
      apply (sustains_evaluateAddresses hstable _ senders).restores.bind
      intro senders
      apply (sustains_evaluateAddresses hstable _ recipients).restores.bind
      intro recipients
      exact restores_transactions hset (fun _ => restores_executeAll body hbody) senders recipients
  | .logEntries event emitters body, place, cursor, ⟨hplace, hbody⟩, hset => by
      subst hplace
      rw [execute]
      apply (sustains_evaluateAddresses (operandStable_cursor cursor) _ emitters).restores.bind
      intro emitters
      exact restores_logEntries hset event (fun _ => restores_executeAll body hbody) emitters
  | .when condition body, place, cursor, hbody, hset => by
      rw [execute]
      exact (sustains_evaluate (operandStable_cursor cursor) condition).restores.bind fun value =>
        restores_runWhen (restores_executeAll body hbody hset) value
  | .contract address reads body, place, cursor, ⟨_, hbody⟩, hset => by
      rw [execute]
      exact restores_contract (restores_executeAll body hbody hset) address reads
  | .further instruction, _, _, _, _ => instruction.elim

theorem restores_executeAll : ∀ (instructions : List (Instruction Empty)) {place : Option Scope}
    {cursor : Cursor}, FitsAllAt place instructions → cursor.SetFor place →
    (executeAll Empty.elim instructions).Restores settings place cursor
  | [], place, cursor, _, _ => by
      rw [executeAll]
      exact sustains_pure ()
  | instruction :: rest, place, cursor, ⟨hfirst, hrest⟩, hset => by
      rw [executeAll]
      exact (restores_execute instruction hfirst hset).bind fun _ =>
        restores_executeAll rest hrest hset

end

end Instruction

end ChainExtract
