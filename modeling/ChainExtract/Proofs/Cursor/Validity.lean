import ChainExtract.Proofs.BlockRange.Entries
import ChainExtract.Proofs.Cursor.Placement

/-! # Valid cursors

A position in the cursor says nothing by itself: it is one of a transaction of the block, or of a
log entry of the transaction. Whatever steps a reader of the chain takes, the positions that its
cursor holds have items under them, and so the items are there if and only if their positions are.
A closed reader answers no request any more.
-/

namespace ChainExtract

variable {σ : Type}

namespace Cursor

/-- The cursor holds no position without the one above it, and no position without an item. -/
structure Valid (cursor : Cursor) : Prop where
  transactionAt_of_logEntryAt : cursor.logEntryAt.isSome = true → cursor.transactionAt.isSome = true
  block_of_transactionAt : cursor.transactionAt.isSome = true → cursor.block.isSome = true
  transactionAt_lt : ∀ {index block}, cursor.transactionAt = some index →
    cursor.block = some block → index < block.transactions.length
  logEntryAt_lt : ∀ {index transaction}, cursor.logEntryAt = some index →
    cursor.transaction = some transaction → index < transaction.logs.length

variable {cursor next : Cursor} {index : Nat}

theorem valid_of_unset (htransaction : cursor.transactionAt = none)
    (hlogEntry : cursor.logEntryAt = none) : cursor.Valid where
  transactionAt_of_logEntryAt := by simp [hlogEntry]
  block_of_transactionAt := by simp [htransaction]
  transactionAt_lt := by simp [htransaction]
  logEntryAt_lt := by simp [hlogEntry]

theorem valid_of_atTransaction (hnext : cursor.atTransaction index = .ok next) : next.Valid := by
  obtain ⟨block, hblock, hindex, rfl⟩ := of_atTransaction_ok hnext
  refine ⟨by simp, by simp [hblock], ?_, by simp⟩
  intro place found hplace hfound
  cases hplace
  cases hblock.symm.trans hfound
  exact hindex

theorem Valid.atLogEntry (hvalid : cursor.Valid) (hnext : cursor.atLogEntry index = .ok next) :
    next.Valid := by
  obtain ⟨transaction, htransaction, hindex, rfl⟩ := of_atLogEntry_ok hnext
  have hplace : cursor.transactionAt.isSome = true := by
    cases hat : cursor.transactionAt with
    | none => simp [Cursor.transaction, hat] at htransaction
    | some => rfl
  refine ⟨fun _ => hplace, hvalid.block_of_transactionAt, hvalid.transactionAt_lt, ?_⟩
  intro place found hentry hfound
  cases hentry
  -- the position of a log entry has no part in which transaction is found
  cases htransaction.symm.trans hfound
  exact hindex

theorem Valid.withoutLogEntry (hvalid : cursor.Valid) : cursor.withoutLogEntry.Valid :=
  ⟨by simp [Cursor.withoutLogEntry], hvalid.block_of_transactionAt, hvalid.transactionAt_lt,
    by simp [Cursor.withoutLogEntry]⟩

theorem Valid.isSome_transaction (hvalid : cursor.Valid) :
    cursor.transaction.isSome = cursor.transactionAt.isSome := by
  cases hplace : cursor.transactionAt with
  | none => simp [Cursor.transaction, hplace]
  | some index =>
      obtain ⟨block, hblock⟩ :=
        Option.isSome_iff_exists.mp (hvalid.block_of_transactionAt (by simp [hplace]))
      have hindex := hvalid.transactionAt_lt hplace hblock
      simp [Cursor.transaction, hplace, hblock, hindex]

theorem Valid.isSome_logEntry (hvalid : cursor.Valid) :
    cursor.logEntry.isSome = cursor.logEntryAt.isSome := by
  cases hplace : cursor.logEntryAt with
  | none => simp [Cursor.logEntry, hplace]
  | some index =>
      have hset : cursor.transaction.isSome = true := by
        rw [hvalid.isSome_transaction]
        exact hvalid.transactionAt_of_logEntryAt (by simp [hplace])
      obtain ⟨transaction, htransaction⟩ := Option.isSome_iff_exists.mp hset
      have hindex := hvalid.logEntryAt_lt hplace htransaction
      simp [Cursor.logEntry, hplace, htransaction, hindex]

end Cursor

/-- A request to the chain. -/
inductive Request where
  | latest
  | block (number : Int)
  | member (query : MemberQuery)
  /-- Waits for a number, and polls so often at most after the first time. -/
  | wait (number : Int) (further : Nat)

namespace Request

/-- Makes the request, and does nothing with the answer. -/
def perform : Request → Run σ Unit
  | .latest => do let _ ← Run.latest
  | .block number => do let _ ← Run.blockOf number
  | .member query => do let _ ← Run.query query
  | .wait number further => Run.waitFor number (further + 1)

/-- The two states have the same cursor, and both are open or both are closed. -/
def SameReader (earlier later : RunState σ) : Prop :=
  later.cursor = earlier.cursor ∧ later.closed = earlier.closed

instance : Std.Refl (SameReader (σ := σ)) := ⟨fun _ => ⟨rfl, rfl⟩⟩

instance : IsTrans (RunState σ) SameReader :=
  ⟨fun _ _ _ hfirst hsecond => ⟨hsecond.1.trans hfirst.1, hsecond.2.trans hfirst.2⟩⟩

variable {settings : Settings σ} {state : RunState σ}

theorem same_request {α : Type} (ask : Client σ → σ → Except Failure α × σ)
    (entry : Except Failure α → JournalEntry) (words : String) :
    (Run.request ask entry words).Keeps SameReader settings := by
  intro state
  rw [Run.run_request]
  split
  · exact ⟨rfl, rfl⟩
  · split <;> exact ⟨rfl, rfl⟩

theorem same_waitFor (number : Int) (patience : Nat) :
    (Run.waitFor number patience).Keeps SameReader settings := by
  induction patience with
  | zero => exact fun _ => ⟨rfl, rfl⟩
  | succ patience ih =>
      refine (same_request _ _ _).bind fun head => ?_
      split
      · exact ih
      · exact Run.keeps_pure ()

theorem same_perform (settings : Settings σ) (request : Request) :
    request.perform.Keeps SameReader settings := by
  cases request with
  | latest | block | member =>
      refine Run.Keeps.bind ?_ fun _ => Run.keeps_pure ()
      simp only [Run.latest, Run.blockOf, Run.query]
      exact same_request _ _ _
  | wait number further => exact same_waitFor number _

/-- No request is answered on a closed connection. -/
theorem run_perform_of_closed (hclosed : state.closed = true) (request : Request) :
    request.perform.run settings state = .failed .readerClosed state := by
  have hrefused {α : Type} (ask : Client σ → σ → Except Failure α × σ)
      (entry : Except Failure α → JournalEntry) (words : String) :
      (Run.request ask entry words).run settings state = .failed .readerClosed state := by
    rw [Run.run_request, if_pos hclosed]
  cases request with
  | latest | block | member =>
      rw [perform, Run.run_bind]
      simp only [Run.latest, Run.blockOf, Run.query, hrefused]
  | wait =>
      rw [perform, Run.waitFor, Run.run_bind]
      simp only [Run.latest, hrefused]

end Request

/-- A step of a reader of the chain. -/
inductive ReaderStep where
  | atBlock (block : Block)
  | atTransaction (index : Nat)
  | atLogEntry (index : Nat)
  | clear
  | clearTransaction
  | clearLogEntry
  | close
  | ask (request : Request)

namespace ReaderStep

/-- Moves the cursor to where it leads, unless it leads nowhere. -/
def move (lead : Cursor → Except Error Cursor) : Run σ Unit := do
  Run.setCursor (← Run.ofExcept (lead (← Run.state).cursor))

def perform : ReaderStep → Run σ Unit
  | .atBlock block => Run.setCursor (.atBlock block)
  | .atTransaction index => move (·.atTransaction index)
  | .atLogEntry index => move (·.atLogEntry index)
  | .clear => Run.setCursor .empty
  | .clearTransaction => do Run.setCursor (← Run.state).cursor.withoutTransaction
  | .clearLogEntry => do Run.setCursor (← Run.state).cursor.withoutLogEntry
  | .close => Run.close
  | .ask request => request.perform

/-- The state after some steps, each taken whether or not the one before has failed. -/
def after (settings : Settings σ) (steps : List ReaderStep) (start : RunState σ) : RunState σ :=
  steps.foldl (fun state step => (step.perform.run settings state).last) start

variable {settings : Settings σ} {state : RunState σ}

theorem run_move (lead : Cursor → Except Error Cursor) (settings : Settings σ)
    (state : RunState σ) :
    (move lead).run settings state =
      match lead state.cursor with
      | .ok cursor => .ok () { state with cursor }
      | .error error => .failed error state := by
  cases hlead : lead state.cursor <;> simp [move, hlead, Run.setCursor]

theorem valid_perform (hvalid : state.cursor.Valid) (step : ReaderStep) :
    (step.perform.run settings state).last.cursor.Valid := by
  cases step with
  | atBlock | clear | clearTransaction | close => exact Cursor.valid_of_unset rfl rfl
  | clearLogEntry => exact hvalid.withoutLogEntry
  | atTransaction index =>
      rw [perform, run_move]
      cases hnext : state.cursor.atTransaction index with
      | ok next => exact Cursor.valid_of_atTransaction hnext
      | error => exact hvalid
  | atLogEntry index =>
      rw [perform, run_move]
      cases hnext : state.cursor.atLogEntry index with
      | ok next => exact hvalid.atLogEntry hnext
      | error => exact hvalid
  | ask request =>
      have hsame := (request.same_perform settings state).last
      exact hsame.1 ▸ hvalid

theorem closed_perform (hclosed : state.closed = true) (step : ReaderStep) :
    (step.perform.run settings state).last.closed = true := by
  cases step with
  | atBlock | clear | clearTransaction | clearLogEntry => exact hclosed
  | close => rfl
  | atTransaction | atLogEntry =>
      rw [perform, run_move]
      split <;> exact hclosed
  | ask request =>
      rw [perform, request.run_perform_of_closed hclosed]
      exact hclosed

/-- A step that fails leaves the cursor as it was. -/
theorem cursor_of_failed {step : ReaderStep} {error : Error} {failed : RunState σ}
    (hfailed : step.perform.run settings state = .failed error failed) :
    failed.cursor = state.cursor := by
  cases step with
  | atBlock | clear | clearTransaction | clearLogEntry | close => cases hfailed
  | atTransaction | atLogEntry =>
      rw [perform, run_move] at hfailed
      split at hfailed <;> cases hfailed
      rfl
  | ask request =>
      have hsame := request.same_perform settings state
      rw [show request.perform.run settings state = _ from hfailed] at hsame
      exact hsame.1

theorem after_append (settings : Settings σ) (first second : List ReaderStep)
    (start : RunState σ) :
    after settings (first ++ second) start = after settings second (after settings first start) :=
  List.foldl_append

theorem valid_after (hvalid : state.cursor.Valid) (steps : List ReaderStep) :
    (after settings steps state).cursor.Valid := by
  induction steps generalizing state with
  | nil => exact hvalid
  | cons step steps ih => exact ih (valid_perform hvalid step)

theorem closed_after (hclosed : state.closed = true) (steps : List ReaderStep) :
    (after settings steps state).closed = true := by
  induction steps generalizing state with
  | nil => exact hclosed
  | cons step steps ih => exact ih (closed_perform hclosed step)

theorem closed_after_of_mem {steps : List ReaderStep} (hclose : .close ∈ steps)
    (start : RunState σ) : (after settings steps start).closed = true := by
  obtain ⟨before, later, rfl⟩ := List.append_of_mem hclose
  rw [after_append]
  have hclosed : (ReaderStep.close.perform.run settings (after settings before start)).last.closed =
      true := rfl
  exact closed_after hclosed later

/-- After any steps from an empty cursor the cursor is valid, and it points at items just where it
holds their positions; a step that fails leaves it as it is. No request succeeds any more once the
reader has been closed. -/
theorem cursor_valid_after (settings : Settings σ) {start : RunState σ}
    (hstart : start.cursor = .empty) (steps : List ReaderStep) :
    let state := after settings steps start
    state.cursor.Valid ∧
      state.cursor.transaction.isSome = state.cursor.transactionAt.isSome ∧
      state.cursor.logEntry.isSome = state.cursor.logEntryAt.isSome ∧
      (∀ (step : ReaderStep) error failed,
        step.perform.run settings state = .failed error failed → failed.cursor = state.cursor) ∧
      (.close ∈ steps → ∀ request : Request,
        request.perform.run settings state = .failed .readerClosed state) := by
  intro state
  have hvalid : state.cursor.Valid := by
    apply valid_after
    rw [hstart]
    exact Cursor.valid_of_unset rfl rfl
  refine ⟨hvalid, hvalid.isSome_transaction, hvalid.isSome_logEntry, ?_, ?_⟩
  · exact fun _ _ _ => cursor_of_failed
  · intro hclose request
    exact request.run_perform_of_closed (closed_after_of_mem hclose start)

/-- A block with one transaction, which has one log entry. -/
def loggedBlock : Block :=
  { BlockRange.branchBlock 2 false 1 with
    transactions :=
      [{ hash := .zero 32, index := 0, sender := .zero 20, recipient := none, value := 0, gas := 0,
         gasPrice := 0, gasUsed := 0, nonce := 0, input := [], success := true,
         logs := [⟨.zero 20, 0, [], [], false⟩] }] }

/-- Steps of a reader that is closed when it points at a log entry, and is then pointed at the
transaction again. -/
def stepsAcrossClose : List ReaderStep :=
  [.atBlock loggedBlock, .atTransaction 0, .atLogEntry 0, .close, .atBlock loggedBlock,
    .atTransaction 0]

/-- There is no second log entry to point at, and the chain is not reached any more. -/
theorem cursor_valid_after_close :
    BlockRange.forkingStart.cursor = .empty ∧ .close ∈ stepsAcrossClose ∧
      ∃ state, after (BlockRange.forkingSettings 2 2 []) stepsAcrossClose BlockRange.forkingStart =
          state ∧
        state.cursor = ⟨some loggedBlock, some 0, none⟩ ∧
        state.cursor.transaction.isSome = state.cursor.transactionAt.isSome ∧
        (∃ error failed, (atLogEntry 1).perform.run (BlockRange.forkingSettings 2 2 []) state =
          .failed error failed ∧ failed.cursor = state.cursor) ∧
        Request.latest.perform.run (BlockRange.forkingSettings 2 2 []) state =
          .failed .readerClosed state := by
  have hempty : BlockRange.forkingStart.cursor = .empty := rfl
  have hclose : .close ∈ stepsAcrossClose := by simp [stepsAcrossClose]
  obtain ⟨_, htransaction, _, hfailing, hclosed⟩ :=
    cursor_valid_after (BlockRange.forkingSettings 2 2 []) hempty stepsAcrossClose
  exact ⟨hempty, hclose, _, rfl, rfl, htransaction, ⟨_, _, rfl, hfailing (.atLogEntry 1) _ _ rfl⟩,
    hclosed hclose .latest⟩

end ReaderStep

end ChainExtract
