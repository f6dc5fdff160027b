import ChainExtract.Proofs.Cursor.Restoration
import ChainExtract.Proofs.Passes.Matching

/-! # Passes over items

Where failures are passed over, a filter visits each of its items, one after the other, and ends
with a result: a visit leaves the next one its cursor, and a failure of it is reported by the
filter and by nothing around it. Within a block this holds at every depth, since what is nested
in a visit ends too and fails in ordinary ways only.
-/

namespace ChainExtract

variable {σ α β : Type} {settings : Settings σ}

/-- The state behind the conclusion of something nested whose failure is passed over. -/
def Run.passedOver (message : String) (outcome : Except Error Unit) (settings : Settings σ)
    (state : RunState σ) : RunState σ :=
  match outcome with
  | .ok () => state
  | .error error => reported message error settings state

/-- The visit of the item at a position. -/
structure Visit (σ : Type) where
  index : Nat
  /-- The state in which the visit begins. -/
  begun : RunState σ
  outcome : Except Error Unit
  /-- The state in which the visit ends, with the outcome not yet told. -/
  ended : RunState σ

namespace Visit

/-- The state behind the visit: the item is left, and a failure has been reported. -/
def settled (settings : Settings σ) (leave : Cursor → Cursor) (message : Nat → String)
    (visit : Visit σ) : RunState σ :=
  Run.passedOver (message visit.index) visit.outcome settings
    { visit.ended with cursor := leave visit.ended.cursor }

/-- What the filter reports about the visit. -/
def reports (message : Nat → String) (visit : Visit σ) : List JournalEntry :=
  match visit.outcome with
  | .ok () => []
  | .error error => [.reported (message visit.index) error]

/-- What the visit enters into the journal, with what the filter reports about it. -/
def entries (message : Nat → String) (visit : Visit σ) : List JournalEntry :=
  visit.ended.since visit.begun ++ visit.reports message

end Visit

/-- Visits follow each other from the first state to the last; `runs` says how each of them
goes. -/
inductive Passes (settings : Settings σ) (runs : Visit σ → Prop) (leave : Cursor → Cursor)
    (message : Nat → String) : RunState σ → List (Visit σ) → RunState σ → Prop
  | done (state : RunState σ) : Passes settings runs leave message state [] state
  | visit {visit : Visit σ} {rest : List (Visit σ)} {final : RunState σ} (hruns : runs visit)
      (hrest : Passes settings runs leave message (visit.settled settings leave message) rest
        final) :
      Passes settings runs leave message visit.begun (visit :: rest) final

theorem Visit.journal_settled {visit : Visit σ} (hextends : Run.Extends visit.begun visit.ended)
    (leave : Cursor → Cursor) (message : Nat → String) :
    (visit.settled settings leave message).journal =
      (visit.entries message).reverse ++ visit.begun.journal := by
  have hended := RunState.journal_eq_since hextends
  unfold entries reports settled Run.passedOver
  cases visit.outcome with
  | ok => simpa using hended
  | error error => simp [Run.reported, hended]

/-- The journal of a pass is that of its visits, each followed by what is reported about it. -/
theorem Passes.journal_eq {runs : Visit σ → Prop} {leave : Cursor → Cursor}
    {message : Nat → String} {begun final : RunState σ} {visits : List (Visit σ)}
    (hpasses : Passes settings runs leave message begun visits final)
    (hextends : ∀ visit, runs visit → Run.Extends visit.begun visit.ended) :
    final.journal = (visits.flatMap (Visit.entries message)).reverse ++ begun.journal := by
  induction hpasses with
  | done => rfl
  | @visit visit rest final hruns _ ih =>
      rw [ih, Visit.journal_settled (hextends visit hruns)]
      simp

theorem Passes.extends {runs : Visit σ → Prop} {leave : Cursor → Cursor}
    {message : Nat → String} {begun final : RunState σ} {visits : List (Visit σ)}
    (hpasses : Passes settings runs leave message begun visits final)
    (hextends : ∀ visit, runs visit → Run.Extends visit.begun visit.ended) :
    Run.Extends begun final := by
  rw [Run.Extends, hpasses.journal_eq hextends]
  exact List.suffix_append _ _

theorem Cursor.setFor_transaction (block : Block) (index : Nat) :
    (⟨some block, some index, none⟩ : Cursor).SetFor (some .transaction) := by
  rintro (_ | _ | _) <;> rfl

theorem Cursor.setFor_logEntry (block : Block) (position index : Nat) :
    (⟨some block, some position, some index⟩ : Cursor).SetFor (some .logEntry) := by
  rintro (_ | _ | _) <;> rfl

theorem Cursor.of_transaction {cursor : Cursor} {transaction : Transaction}
    (htransaction : cursor.transaction = some transaction) :
    ∃ block position, cursor.block = some block ∧ cursor.transactionAt = some position ∧
      block.transactions[position]? = some transaction := by
  obtain ⟨position, hposition, hfound⟩ := Option.bind_eq_some_iff.mp htransaction
  obtain ⟨block, hblock, hat⟩ := Option.bind_eq_some_iff.mp hfound
  exact ⟨block, position, hblock, hposition, hat⟩

namespace Run

/-- From a cursor the run comes back to it, and it ends; its failures are ordinary ones. -/
abbrev Proceeds (settings : Settings σ) (start : RunState σ) (cursor : Cursor) (x : Run σ α) :
    Prop :=
  x.Sustains settings (fun state => state.cursor = cursor ∧ Extends start state) Error.IsOrdinary
    fun _ => False

variable {start state : RunState σ} {cursor : Cursor} {body : Run σ Unit}

theorem operandStable_proceeds (start : RunState σ) (cursor : Cursor) :
    OperandStable settings (fun state => state.cursor = cursor ∧ Extends start state) :=
  ⟨fun _ _ _ hstate => ⟨hstate.1, hstate.2.trans (List.suffix_cons _ _)⟩,
    fun _ _ hstate => ⟨hstate.1, hstate.2.trans (List.suffix_cons _ _)⟩⟩

/-- What proceeds has an outcome. -/
theorem Proceeds.exists_outcome {x : Run σ α} (hx : x.Proceeds settings state state.cursor) :
    ∃ outcome ended, x.attempt.run settings state = .ok outcome ended ∧
      ended.cursor = state.cursor ∧ Extends state ended ∧
      ∀ error, outcome = .error error → error.IsOrdinary := by
  have hends := hx state ⟨rfl, List.suffix_refl _⟩
  rw [run_attempt]
  cases hrun : x.run settings state with
  | ok result ended =>
      rw [hrun] at hends
      exact ⟨.ok result, ended, rfl, hends.1, hends.2, by simp⟩
  | failed error ended =>
      rw [hrun] at hends
      refine ⟨.error error, ended, rfl, hends.1.1, hends.1.2, ?_⟩
      rintro _ ⟨⟩
      exact hends.2
  | unfinished =>
      rw [hrun] at hends
      exact hends.elim

theorem Proceeds.extends {x : Run σ α} (hx : x.Proceeds settings state state.cursor)
    {outcome : Except Error α} {ended : RunState σ}
    (hrun : x.attempt.run settings state = .ok outcome ended) : Extends state ended := by
  obtain ⟨_, _, hends, _, hextends, _⟩ := hx.exists_outcome
  obtain ⟨_, rfl⟩ := Outcome.ok.inj (hrun.symm.trans hends)
  exact hextends

theorem Proceeds.restores {x : Run σ α} {place : Option Scope}
    (hx : ∀ start, x.Proceeds settings start cursor) : x.Restores settings place cursor := by
  intro state hstate
  exact (hx state state ⟨hstate, List.suffix_refl _⟩).imp (fun _ _ h => h.1)
    (fun _ _ h => ⟨h.1.1, trivial⟩) fun _ hnever => hnever.elim

/-- What is undone behind a run does not change how the run has ended. -/
theorem run_attempt_undone {x : Run σ α} {undo : RunState σ → RunState σ}
    {outcome : Except Error α} {left : RunState σ}
    (hrun : x.attempt.run settings state = .ok outcome left) :
    (do
      let outcome ← x.attempt
      modify undo
      ofExcept outcome).attempt.run settings state = .ok outcome (undo left) := by
  rw [run_attempt, run_bind, hrun]
  cases outcome <;> rfl

/-- Where failures are passed over, the conclusion of a visit reports its failure. -/
theorem run_conclude_of_ordinary (habort : settings.abortOnFailure = false) (message : String)
    {outcome : Except Error Unit} (houtcome : ∀ error, outcome = .error error → error.IsOrdinary) :
    (conclude message outcome).run settings state =
      .ok () (passedOver message outcome settings state) := by
  cases outcome with
  | ok => rfl
  | error error =>
      rw [conclude, run_settle (houtcome error rfl).isAborted, habort]
      rfl

end Run

open Run

variable {block : Block} {position : Nat} {event : EventDecl}

namespace TransactionFilter

/-- The body runs for the transaction of a visit, and the visit ends as the body does. -/
def VisitRuns (settings : Settings σ) (block : Block) (body : Run σ Unit) (visit : Visit σ) :
    Prop :=
  body.attempt.run settings { visit.begun with cursor := ⟨some block, some visit.index, none⟩ } =
    .ok visit.outcome visit.ended

/-- The words in which the failed visit of a transaction is reported. -/
def visitMessage (index : Nat) : String := s!"error processing transaction {index}"

theorem exists_visit (block : Block) {body : Run σ Unit}
    (hbody : ∀ start cursor, cursor.SetFor (some .transaction) →
      body.Proceeds settings start cursor) (state : RunState σ) (index : Nat) :
    ∃ visit : Visit σ, visit.index = index ∧ visit.begun = state ∧
      VisitRuns settings block body visit ∧
      visit.ended.cursor = ⟨some block, some index, none⟩ ∧
      ∀ error, visit.outcome = .error error → error.IsOrdinary := by
  obtain ⟨outcome, ended, hrun, hcursor, _, hordinary⟩ :=
    (hbody { state with cursor := ⟨some block, some index, none⟩ } _
      (Cursor.setFor_transaction _ _)).exists_outcome
  exact ⟨⟨index, state, outcome, ended⟩, rfl, rfl, hrun, hcursor, hordinary⟩

theorem VisitRuns.extends {body : Run σ Unit}
    (hbody : ∀ start cursor, cursor.SetFor (some .transaction) →
      body.Proceeds settings start cursor) {visit : Visit σ}
    (hruns : VisitRuns settings block body visit) : Extends visit.begun visit.ended :=
  (hbody { visit.begun with cursor := ⟨some block, some visit.index, none⟩ } _
    (Cursor.setFor_transaction _ _)).extends hruns

/-- Transactions of the block are visited one after the other, whatever visits fail. -/
theorem exists_passes (habort : settings.abortOnFailure = false) {body : Run σ Unit}
    (hbody : ∀ start cursor, cursor.SetFor (some .transaction) →
      body.Proceeds settings start cursor)
    {indices : List Nat} (hindices : ∀ index ∈ indices, index < block.transactions.length)
    {state : RunState σ} (hblock : state.cursor.block = some block) :
    ∃ visits final, (visitAll body indices).run settings state = .ok () final ∧
      visits.map Visit.index = indices ∧
      Passes settings (VisitRuns settings block body) Cursor.withoutTransaction visitMessage state
        visits final := by
  induction indices generalizing state with
  | nil => exact ⟨[], state, rfl, rfl, .done state⟩
  | cons index rest ih =>
      obtain ⟨hindex, hrest⟩ := List.forall_mem_cons.mp hindices
      obtain ⟨visit, rfl, rfl, hruns, hcursor, hordinary⟩ :=
        exists_visit block hbody state index
      have hat : visit.begun.cursor.atTransaction visit.index =
          .ok ⟨some block, some visit.index, none⟩ := by
        rw [Cursor.atTransaction, hblock]
        simp [hindex]
      -- however the visit has ended, the cursor is left in the block for the next one
      have hsettled : (visit.settled settings Cursor.withoutTransaction visitMessage).cursor.block =
          some block := by
        unfold Visit.settled passedOver
        cases visit.outcome <;> simp [Run.reported, Cursor.withoutTransaction, hcursor]
      obtain ⟨visits, final, hrun, hmap, hpasses⟩ := ih hrest hsettled
      refine ⟨visit :: visits, final, ?_, by simp [hmap], .visit hruns hpasses⟩
      rw [visitAll]
      simp only [run_bind, run_state, hat, run_ofExcept_ok, setCursor, run_modify]
      rw [hruns]
      simp only [run_conclude_of_ordinary habort _ hordinary]
      exact hrun

/-- The filter visits the transactions between admitted addresses, and ends with a result. -/
theorem run_passes (habort : settings.abortOnFailure = false) {body : Run σ Unit}
    (hbody : ∀ start cursor, cursor.SetFor (some .transaction) →
      body.Proceeds settings start cursor)
    (senders recipients : AddressSet) {state : RunState σ}
    (hblock : state.cursor.block = some block) :
    ∃ visits final, (run senders recipients body).run settings state = .ok () final ∧
      Selects block.transactions (·.IsBetween senders.members recipients.members)
        (visits.map Visit.index) ∧
      Passes settings (VisitRuns settings block body) Cursor.withoutTransaction visitMessage state
        visits final := by
  have hselects := selects_matching senders recipients block
  obtain ⟨visits, final, hrun, hmap, hpasses⟩ :=
    exists_passes habort hbody (fun _ => hselects.lt_length) hblock
  refine ⟨visits, final, ?_, hmap ▸ hselects, hpasses⟩
  rw [run, run_bind, run_state]
  simp only [hblock, hrun]

end TransactionFilter

namespace LogEntryFilter

/-- A log entry that cannot be decoded fails its visit. Otherwise the body runs with the decoded
variables, which are removed when it has ended. -/
def VisitRuns (settings : Settings σ) (block : Block) (position : Nat) (transaction : Transaction)
    (event : EventDecl) (body : Run σ Unit) (visit : Visit σ) : Prop :=
  ∃ entry, transaction.logs[visit.index]? = some entry ∧
    let pointing : RunState σ :=
      { visit.begun with cursor := ⟨some block, some position, some visit.index⟩ }
    match event.decode entry.topics entry.data with
    | .error error => visit.outcome = .error error ∧ visit.ended = pointing
    | .ok decoded => ∃ left, (do
          decoded.forM fun (name, value) => Run.assign name value
          body).attempt.run settings pointing = .ok visit.outcome left ∧
        visit.ended = { left with store := left.store.eraseAll (decoded.map (·.1)) }

/-- The words in which the failed visit of a log entry is reported. -/
def visitMessage (event : EventDecl) (index : Nat) : String :=
  s!"error processing log entry {index} ({event.name})"

variable {transaction : Transaction}

theorem run_enter {state : RunState σ} (hblock : state.cursor.block = some block)
    (hposition : state.cursor.transactionAt = some position)
    (htransaction : block.transactions[position]? = some transaction) {index : Nat}
    {entry : LogEntry} (hentry : transaction.logs[index]? = some entry) :
    (enter event index).run settings state =
      (ofExcept (event.decode entry.topics entry.data)).run settings
        { state with cursor := ⟨some block, some position, some index⟩ } := by
  have hat : state.cursor.atLogEntry index = .ok ⟨some block, some position, some index⟩ := by
    have hindex := (List.getElem?_eq_some_iff.mp hentry).1
    simp [Cursor.atLogEntry, Cursor.transaction, hblock, hposition, htransaction, hindex]
  have hfound : (⟨some block, some position, some index⟩ : Cursor).logEntry = some entry := by
    simp [Cursor.logEntry, Cursor.transaction, htransaction, hentry]
  simp only [enter, run_bind, run_state, hat, run_ofExcept_ok, setCursor, run_modify, hfound]

theorem proceeds_decoded {body : Run σ Unit}
    (hbody : ∀ start cursor, cursor.SetFor (some .logEntry) →
      body.Proceeds settings start cursor) (decoded : List (String × Value)) (state : RunState σ)
    (hset : state.cursor.SetFor (some .logEntry)) :
    (do
      decoded.forM fun (name, value) => Run.assign name value
      body).Proceeds settings state state.cursor :=
  (sustains_assignAll (operandStable_proceeds _ _) decoded).bind fun _ => hbody _ _ hset

/-- The decoded variables are removed behind the body, however it has ended. -/
theorem run_visit_decoded {body : Run σ Unit} {index : Nat} {state pointing left : RunState σ}
    {decoded : List (String × Value)} {outcome : Except Error Unit}
    (henter : (enter event index).run settings state = .ok decoded pointing)
    (hrun : (do
      decoded.forM fun (name, value) => Run.assign name value
      body).attempt.run settings pointing = .ok outcome left) :
    (visit event body index).attempt.run settings state =
      .ok outcome { left with store := left.store.eraseAll (decoded.map (·.1)) } := by
  obtain ⟨begun, hassigned⟩ := exists_assignAll decoded settings pointing
  have hbegun : body.attempt.run settings begun = .ok outcome left := by
    rw [← hrun, run_attempt, run_attempt, run_bind, hassigned]
  -- assignments do not fail, so it makes no difference whether they are attempted with the body
  have hundone : (do
      let outcome ← body.attempt
      Run.erase (decoded.map Prod.fst)
      Run.ofExcept outcome).attempt.run settings begun =
        .ok outcome { left with store := left.store.eraseAll (decoded.map (·.1)) } :=
    run_attempt_undone hbegun
  have hdecoded : (do
      decoded.forM fun (name, value) => Run.assign name value
      let outcome ← body.attempt
      Run.erase (decoded.map Prod.fst)
      Run.ofExcept outcome).attempt.run settings pointing =
        .ok outcome { left with store := left.store.eraseAll (decoded.map (·.1)) } := by
    rw [← hundone, run_attempt, run_attempt, run_bind, hassigned]
  rw [← hdecoded, run_attempt, run_attempt, visit, run_bind, henter]

theorem exists_visit (event : EventDecl) {body : Run σ Unit}
    (hbody : ∀ start cursor, cursor.SetFor (some .logEntry) →
      body.Proceeds settings start cursor) {state : RunState σ}
    (hblock : state.cursor.block = some block)
    (hposition : state.cursor.transactionAt = some position)
    (htransaction : block.transactions[position]? = some transaction) {index : Nat}
    (hindex : index < transaction.logs.length) :
    ∃ visit : Visit σ, visit.index = index ∧ visit.begun = state ∧
      VisitRuns settings block position transaction event body visit ∧
      (LogEntryFilter.visit event body index).attempt.run settings state =
        .ok visit.outcome visit.ended ∧
      visit.ended.cursor = ⟨some block, some position, some index⟩ ∧
      ∀ error, visit.outcome = .error error → error.IsOrdinary := by
  obtain ⟨entry, hentry⟩ : ∃ entry, transaction.logs[index]? = some entry :=
    ⟨_, List.getElem?_eq_getElem hindex⟩
  let pointing : RunState σ := { state with cursor := ⟨some block, some position, some index⟩ }
  have henter : (enter event index).run settings state =
      (ofExcept (event.decode entry.topics entry.data)).run settings pointing :=
    run_enter hblock hposition htransaction hentry
  cases hdecode : event.decode entry.topics entry.data with
  | error error =>
      refine ⟨⟨index, state, .error error, pointing⟩, rfl, rfl, ⟨entry, hentry, ?_⟩, ?_, rfl, ?_⟩
      · simp [hdecode, pointing]
      · simp [LogEntryFilter.visit, run_attempt, henter, hdecode, pointing]
      · rintro _ ⟨⟩
        exact ((event.failsOnly_decode entry.topics entry.data) error hdecode).isOrdinary
  | ok decoded =>
      obtain ⟨outcome, left, hrun, hcursor, _, hordinary⟩ :=
        (proceeds_decoded hbody decoded pointing (Cursor.setFor_logEntry _ _ _)).exists_outcome
      let ended : RunState σ := { left with store := left.store.eraseAll (decoded.map (·.1)) }
      refine ⟨⟨index, state, outcome, ended⟩, rfl, rfl, ⟨entry, hentry, ?_⟩, ?_, hcursor, hordinary⟩
      · simp only [hdecode]
        exact ⟨left, hrun, rfl⟩
      · exact run_visit_decoded (by rw [henter, hdecode, run_ofExcept_ok]) hrun

theorem VisitRuns.extends {body : Run σ Unit}
    (hbody : ∀ start cursor, cursor.SetFor (some .logEntry) →
      body.Proceeds settings start cursor) {visit : Visit σ}
    (hruns : VisitRuns settings block position transaction event body visit) :
    Extends visit.begun visit.ended := by
  obtain ⟨entry, _, hvisit⟩ := hruns
  cases hdecode : event.decode entry.topics entry.data with
  | error error =>
      simp only [hdecode] at hvisit
      rw [hvisit.2]
      exact List.suffix_refl _
  | ok decoded =>
      simp only [hdecode] at hvisit
      obtain ⟨left, hrun, hended⟩ := hvisit
      have hleft : Extends visit.begun left :=
        (proceeds_decoded hbody decoded { visit.begun with
          cursor := ⟨some block, some position, some visit.index⟩ }
          (Cursor.setFor_logEntry _ _ _)).extends hrun
      rw [hended]
      exact hleft

/-- The log entries of the transaction are visited one after the other, whatever visits fail. -/
theorem exists_passes (habort : settings.abortOnFailure = false) (event : EventDecl)
    {body : Run σ Unit}
    (hbody : ∀ start cursor, cursor.SetFor (some .logEntry) →
      body.Proceeds settings start cursor)
    (htransaction : block.transactions[position]? = some transaction) {indices : List Nat}
    (hindices : ∀ index ∈ indices, index < transaction.logs.length) {state : RunState σ}
    (hblock : state.cursor.block = some block)
    (hposition : state.cursor.transactionAt = some position) :
    ∃ visits final, (visitEach event.name (visit event body) indices).run settings state =
        .ok () final ∧
      visits.map Visit.index = indices ∧
      Passes settings (VisitRuns settings block position transaction event body)
        Cursor.withoutLogEntry (visitMessage event) state visits final := by
  induction indices generalizing state with
  | nil => exact ⟨[], state, rfl, rfl, .done state⟩
  | cons index rest ih =>
      obtain ⟨hindex, hrest⟩ := List.forall_mem_cons.mp hindices
      obtain ⟨first, rfl, rfl, hruns, hrun, hcursor, hordinary⟩ :=
        exists_visit event hbody hblock hposition htransaction hindex
      have hsettled : (first.settled settings Cursor.withoutLogEntry
          (visitMessage event)).cursor = ⟨some block, some position, none⟩ := by
        unfold Visit.settled passedOver
        cases first.outcome <;> simp [Run.reported, Cursor.withoutLogEntry, hcursor]
      obtain ⟨visits, final, hfinal, hmap, hpasses⟩ :=
        ih hrest (congrArg Cursor.block hsettled) (congrArg Cursor.transactionAt hsettled)
      refine ⟨first :: visits, final, ?_, by simp [hmap], .visit hruns hpasses⟩
      rw [visitEach, run_bind, hrun]
      simp only [run_bind, run_state, setCursor, run_modify,
        run_conclude_of_ordinary habort _ hordinary]
      exact hfinal

/-- The filter visits the log entries of the event from admitted emitters, and ends with a
result. -/
theorem run_passes (habort : settings.abortOnFailure = false) {body : Run σ Unit}
    (hbody : ∀ start cursor, cursor.SetFor (some .logEntry) →
      body.Proceeds settings start cursor)
    (event : EventDecl) (emitters : AddressSet) {state : RunState σ}
    (hblock : state.cursor.block = some block)
    (hposition : state.cursor.transactionAt = some position)
    (htransaction : block.transactions[position]? = some transaction) :
    ∃ visits final, (run event emitters body).run settings state = .ok () final ∧
      Selects transaction.logs (·.IsOf event emitters.members) (visits.map Visit.index) ∧
      Passes settings (VisitRuns settings block position transaction event body)
        Cursor.withoutLogEntry (visitMessage event) state visits final := by
  have hselects := selects_matching event emitters transaction
  obtain ⟨visits, final, hrun, hmap, hpasses⟩ := exists_passes habort event hbody
    htransaction (fun _ => hselects.lt_length) hblock hposition
  refine ⟨visits, final, ?_, hmap ▸ hselects, hpasses⟩
  have hcurrent : state.cursor.transaction = some transaction := by
    simp [Cursor.transaction, hblock, hposition, htransaction]
  rw [run, visitMatching, run_bind, run_state]
  simp only [hcurrent, hrun]

end LogEntryFilter

end ChainExtract
