import ChainExtract.Proofs.Cursor.Items
import ChainExtract.Proofs.Passes.Completion

/-! # Filters nested in plans

Whatever is nested in a block of a plan comes back to its cursor, as compilation has put it where
the cursor is set for it. So the passes of its filters, at every depth, are complete: each visits
the items that matched before the first visit, and ends with a result.
-/

namespace ChainExtract

variable {σ : Type} {settings : Settings σ}

namespace Run

variable {start : RunState σ} {cursor : Cursor} {body : Run σ Unit}

theorem proceeds_transactions (habort : settings.abortOnFailure = false)
    (hset : cursor.SetFor (some .block))
    (hbody : ∀ start cursor, cursor.SetFor (some .transaction) →
      body.Proceeds settings start cursor)
    (senders recipients : AddressSet) :
    (TransactionFilter.run senders recipients body).Proceeds settings start cursor := by
  rintro state ⟨rfl, hextends⟩
  obtain ⟨block, hblock⟩ := hset.exists_block (by simp)
  obtain ⟨visits, final, hrun, _, hpasses⟩ :=
    TransactionFilter.run_passes habort hbody senders recipients hblock
  have hcursor : final.cursor = state.cursor :=
    (restores_transactions hset (fun next hnext =>
      Proceeds.restores fun start => hbody start next hnext) senders recipients).of_ok rfl hrun
  rw [hrun]
  exact ⟨hcursor, hextends.trans (hpasses.extends fun _ hruns => hruns.extends hbody)⟩

theorem proceeds_logEntries (habort : settings.abortOnFailure = false)
    (hset : cursor.SetFor (some .transaction)) (event : EventDecl)
    (hbody : ∀ start cursor, cursor.SetFor (some .logEntry) →
      body.Proceeds settings start cursor)
    (emitters : AddressSet) :
    (LogEntryFilter.run event emitters body).Proceeds settings start cursor := by
  rintro state ⟨rfl, hextends⟩
  cases htransaction : state.cursor.transaction with
  | none =>
      rw [LogEntryFilter.run, LogEntryFilter.visitMatching, run_bind, run_state]
      simp only [htransaction, run_fail]
      exact ⟨⟨rfl, hextends⟩, trivial⟩
  | some transaction =>
      obtain ⟨block, position, hblock, hposition, hat⟩ := Cursor.of_transaction htransaction
      obtain ⟨visits, final, hrun, _, hpasses⟩ :=
        LogEntryFilter.run_passes habort hbody event emitters hblock hposition hat
      have hcursor : final.cursor = state.cursor :=
        (restores_logEntries hset event (fun next hnext =>
          Proceeds.restores fun start => hbody start next hnext) emitters).of_ok rfl hrun
      rw [hrun]
      exact ⟨hcursor, hextends.trans (hpasses.extends fun _ hruns => hruns.extends hbody)⟩

theorem proceeds_runWhen (hbody : body.Proceeds settings start cursor) (condition : Value) :
    (runWhen condition body).Proceeds settings start cursor := by
  unfold runWhen
  split
  · exact hbody
  · exact sustains_pure ()
  · exact sustains_fail trivial

theorem proceeds_contract (hbody : body.Proceeds settings start cursor) (address : Operand)
    (reads : List MemberRead) :
    (ContractFilter.run address reads body).Proceeds settings start cursor := by
  have hreads : (do
      let target ← ContractFilter.target (← address.evaluate)
      reads.forM (ContractFilter.read target)).Proceeds settings start cursor :=
    sustains_reads (operandStable_proceeds start cursor) address reads
  -- what is removed behind the body is no matter of the cursor or of the journal
  have hrun : (ContractFilter.readAndRun address reads body).Proceeds settings start cursor := by
    simpa only [ContractFilter.readAndRun, bind_assoc] using hreads.bind fun _ => hbody
  exact ensures_undone hrun fun _ hafter => hafter

end Run

namespace Instruction

open Run

mutual

/-- Within a block an instruction ends and comes back to its cursor, where failures are passed
over. -/
theorem proceeds_execute (habort : settings.abortOnFailure = false) :
    ∀ (instruction : Instruction Empty) {place : Option Scope} {start : RunState σ}
      {cursor : Cursor}, instruction.FitsAt place → place ≠ none → cursor.SetFor place →
      (instruction.execute Empty.elim).Proceeds settings start cursor
  | .assign _ _, _, start, cursor, _, _, _ | .call _ _ _, _, start, cursor, _, _, _
  | .exportRow _ _, _, start, cursor, _, _, _ | .exportLine _, _, start, cursor, _, _, _
  | .exportEvent _ _ _, _, start, cursor, _, _, _ =>
    sustains_simple (operandStable_proceeds start cursor)
      (fun _ _ hstate => ⟨hstate.1, hstate.2.trans (List.suffix_cons _ _)⟩) Empty.elim trivial
  | .blocks _ _ _, _, _, _, ⟨hplace, _⟩, hinside, _ => absurd hplace hinside
  | .transactions senders recipients body, place, start, cursor, ⟨hplace, hbody⟩, _, hset => by
      subst hplace
      have hstable : OperandStable settings _ := operandStable_proceeds start cursor
      rw [execute]
      apply (sustains_evaluateAddresses hstable _ senders).bind
      intro senders
      apply (sustains_evaluateAddresses hstable _ recipients).bind
      intro recipients
      exact proceeds_transactions habort hset
        (fun _ _ => proceeds_executeAll habort body hbody (by simp)) senders recipients
  | .logEntries event emitters body, place, start, cursor, ⟨hplace, hbody⟩, _, hset => by
      subst hplace
      rw [execute]
      apply (sustains_evaluateAddresses (operandStable_proceeds start cursor) _ emitters).bind
      intro emitters
      exact proceeds_logEntries habort hset event
        (fun _ _ => proceeds_executeAll habort body hbody (by simp)) emitters
  | .when condition body, place, start, cursor, hbody, hinside, hset => by
      rw [execute]
      exact (sustains_evaluate (operandStable_proceeds start cursor) condition).bind fun value =>
        proceeds_runWhen (proceeds_executeAll habort body hbody hinside hset) value
  | .contract address reads body, place, start, cursor, ⟨_, hbody⟩, hinside, hset => by
      rw [execute]
      exact proceeds_contract (proceeds_executeAll habort body hbody hinside hset) address reads
  | .further instruction, _, _, _, _, _, _ => instruction.elim

theorem proceeds_executeAll (habort : settings.abortOnFailure = false) :
    ∀ (instructions : List (Instruction Empty)) {place : Option Scope} {start : RunState σ}
      {cursor : Cursor}, FitsAllAt place instructions → place ≠ none → cursor.SetFor place →
      (executeAll Empty.elim instructions).Proceeds settings start cursor
  | [], _, _, _, _, _, _ => by
      rw [executeAll]
      exact sustains_pure ()
  | instruction :: rest, place, start, cursor, ⟨hfirst, hrest⟩, hinside, hset => by
      rw [executeAll]
      exact (proceeds_execute habort instruction hfirst hinside hset).bind fun _ =>
        proceeds_executeAll habort rest hrest hinside hset

end

end Instruction

open Run

theorem AddressSet.run_evaluateAddresses {operand : Option Operand} {state after : RunState σ}
    {value? : Option Value} {addresses : List Address}
    (hvalue : (Operand.evaluate? operand).run settings state = .ok value? after)
    (hgives : AddressSet.Gives addresses value?) (subject : String) :
    (evaluateAddresses subject operand).run settings state = .ok ⟨addresses⟩ after := by
  rw [evaluateAddresses, run_bind, hvalue]
  simp only [AddressSet.ofValue_of_gives hgives, run_ofExcept_ok]

/-- The run has ended with a result, having visited exactly the items with the property from the
state `begun` on. Since then the journal has what the visits have entered, with one report of the
filter behind each that failed. -/
def Outcome.Covers {ι : Type} (outcome : Outcome σ Unit) (settings : Settings σ) (items : List ι)
    (P : ι → Prop) (runs : Visit σ → Prop) (leave : Cursor → Cursor) (message : Nat → String)
    (begun : RunState σ) : Prop :=
  ∃ visits final, outcome = .ok () final ∧ Selects items P (visits.map Visit.index) ∧
    Passes settings runs leave message begun visits final ∧
    final.since begun = visits.flatMap (Visit.entries message)

namespace Plan

open ChainExtract.Instruction in
/-- Where failures are passed over, the filters of a plan visit exactly the items that match when
their operands have been evaluated, and end with a result. Each visit runs the body with the
cursor on its item, whatever happened in the visits before. -/
theorem Instruction.covers_matching_of_compile (library : Library) (settings : Settings σ)
    (habort : settings.abortOnFailure = false) :
    (∀ {instruction : Instruction} {place : Option Scope} {names after : Names}
      {senders recipients : Option ChainExtract.Operand}
      {body : List (ChainExtract.Instruction Empty)} {state second third : RunState σ}
      {sending receiving : Option Value} {senderSet recipientSet : List Address} {block : Block},
      (instruction.compile library place).run names =
        .ok (.transactions senders recipients body, after) →
      (Operand.evaluate? senders).run settings state = .ok sending second →
      AddressSet.Gives senderSet sending →
      (Operand.evaluate? recipients).run settings second = .ok receiving third →
      AddressSet.Gives recipientSet receiving → third.cursor.block = some block →
      ((execute Empty.elim (.transactions senders recipients body)).run settings state).Covers
        settings block.transactions (·.IsBetween senderSet recipientSet)
        (TransactionFilter.VisitRuns settings block (executeAll Empty.elim body))
        Cursor.withoutTransaction TransactionFilter.visitMessage third) ∧
    ∀ {instruction : Instruction} {place : Option Scope} {names after : Names} {event : EventDecl}
      {emitters : Option ChainExtract.Operand} {body : List (ChainExtract.Instruction Empty)}
      {state second : RunState σ} {emitting : Option Value} {emitterSet : List Address}
      {block : Block} {position : Nat} {transaction : Transaction},
      (instruction.compile library place).run names =
        .ok (.logEntries event emitters body, after) →
      (Operand.evaluate? emitters).run settings state = .ok emitting second →
      AddressSet.Gives emitterSet emitting → second.cursor.block = some block →
      second.cursor.transactionAt = some position →
      block.transactions[position]? = some transaction →
      ((execute Empty.elim (.logEntries event emitters body)).run settings state).Covers
        settings transaction.logs (·.IsOf event emitterSet)
        (LogEntryFilter.VisitRuns settings block position transaction event
          (executeAll Empty.elim body))
        Cursor.withoutLogEntry (LogEntryFilter.visitMessage event) second := by
  constructor
  · intro instruction place names after senders recipients body state second third sending
      receiving senderSet recipientSet block hcompile hsending hsenders hreceiving hrecipients
      hblock
    obtain ⟨_, hfits⟩ := Instruction.fitsAt_of_compile instruction hcompile
    have hbody : ∀ start cursor, cursor.SetFor (some .transaction) →
        (executeAll Empty.elim body).Proceeds settings start cursor :=
      fun _ _ hset => proceeds_executeAll habort body hfits (by simp) hset
    obtain ⟨visits, final, hrun, hselects, hpasses⟩ :=
      TransactionFilter.run_passes habort hbody ⟨senderSet⟩ ⟨recipientSet⟩ hblock
    refine ⟨visits, final, ?_, hselects, hpasses,
      RunState.since_eq (hpasses.journal_eq fun _ hruns => hruns.extends hbody)⟩
    rw [execute, run_bind, AddressSet.run_evaluateAddresses hsending hsenders]
    simp only [run_bind, AddressSet.run_evaluateAddresses hreceiving hrecipients, hrun]
  · intro instruction place names after event emitters body state second emitting emitterSet block
      position transaction hcompile hemitting hemitters hblock hposition htransaction
    obtain ⟨_, hfits⟩ := Instruction.fitsAt_of_compile instruction hcompile
    have hbody : ∀ start cursor, cursor.SetFor (some .logEntry) →
        (executeAll Empty.elim body).Proceeds settings start cursor :=
      fun _ _ hset => proceeds_executeAll habort body hfits (by simp) hset
    obtain ⟨visits, final, hrun, hselects, hpasses⟩ := LogEntryFilter.run_passes habort hbody event
      ⟨emitterSet⟩ hblock hposition htransaction
    refine ⟨visits, final, ?_, hselects, hpasses,
      RunState.since_eq (hpasses.journal_eq fun _ hruns => hruns.extends hbody)⟩
    rw [execute, run_bind, AddressSet.run_evaluateAddresses hemitting hemitters]
    simp only [hrun]

/-- A body that fails for each log entry of the event `Ping()`. -/
def pings : Instruction :=
  .logEntries "Ping" [] none
    [.call "divide" [.literal (.scalar (.integer 1)), .literal (.scalar (.integer 0))] none]

/-- The transactions to an address that is listed twice. -/
def pinged : Instruction :=
  .transactions none (some (.list [.address (.zero 20), .address (.zero 20)])) [pings]

/-- A transaction with two log entries of `Ping()`, of which the first cannot be decoded. -/
def pinging : Transaction :=
  let topic := (⟨"Ping", []⟩ : EventDecl).topic
  { ChainExtract.Instruction.payment with
    recipient := some (.zero 20)
    logs := [⟨.zero 20, 0, [topic, topic], [], false⟩, ⟨.zero 20, 1, [topic], [], false⟩] }

/-- The creation of a contract, and a transaction with log entries. -/
def pingedBlock : Block :=
  { BlockRange.branchBlock 2 false 1 with
    transactions := [ChainExtract.Instruction.payment, pinging] }

def pingedStart : RunState Nat :=
  { BlockRange.forkingStart with cursor := ⟨some pingedBlock, some 1, none⟩ }

open ChainExtract.Instruction in
theorem Instruction.covers_matching_of_compile_pinged :
    payingSettings.abortOnFailure = false ∧
    (∃ senders recipients body after,
      (pinged.compile .standard (some .block)).run {} =
        .ok (.transactions senders recipients body, after) ∧
      ((execute Empty.elim (.transactions senders recipients body)).run payingSettings
        pingedStart).Covers payingSettings [payment, pinging]
        (·.IsBetween [] [.zero 20, .zero 20])
        (TransactionFilter.VisitRuns payingSettings pingedBlock (executeAll Empty.elim body))
        Cursor.withoutTransaction TransactionFilter.visitMessage pingedStart) ∧
    ∃ event emitters body after,
      (pings.compile .standard (some .transaction)).run {} =
        .ok (.logEntries event emitters body, after) ∧
      ((execute Empty.elim (.logEntries event emitters body)).run payingSettings
        pingedStart).Covers payingSettings pinging.logs (·.IsOf event [])
        (LogEntryFilter.VisitRuns payingSettings pingedBlock 1 pinging event
          (executeAll Empty.elim body))
        Cursor.withoutLogEntry (LogEntryFilter.visitMessage event) pingedStart := by
  obtain ⟨htransactions, hlogEntries⟩ :=
    Instruction.covers_matching_of_compile .standard payingSettings rfl
  have hblock : pingedStart.cursor.block = some pingedBlock := rfl
  have hall : AddressSet.Gives [] none := rfl
  have htwice : AddressSet.Gives [.zero 20, .zero 20]
    (some (.list [.addr (.zero 20), .addr (.zero 20)])) := rfl
  refine ⟨rfl, ⟨_, _, _, _, rfl, ?_⟩, ⟨_, _, _, _, rfl, ?_⟩⟩
  · have hpinged : (pinged.compile .standard (some .block)).run {} = .ok (.transactions _ _ _, _) :=
      rfl
    exact htransactions hpinged rfl hall rfl htwice hblock
  · have hpings : (pings.compile .standard (some .transaction)).run {} =
        .ok (.logEntries _ _ _, _) := rfl
    exact hlogEntries hpings rfl hall hblock rfl rfl

end Plan

end ChainExtract
