import ChainExtract.Proofs.Definite.Operands
import ChainExtract.Proofs.Export.Files

/-! # Bodies read what is set

A filter leaves the variables around its body stored and the cursor where it was, however the
body has ended for an item. So the body finds them again for the next item, whatever has become
of those before it.
-/

namespace ChainExtract

variable {σ : Type} {settings : Settings σ} {start : RunState σ} {place : Option Scope}
variable {names inner : Names} {cursor : Cursor} {body : Run σ Unit}
variable {framedBody : Run (Scoped σ) Unit}

namespace Run

theorem settles_readable :
    Settles settings (Readable start names cursor) fun error => ¬ error.IsUnset where
  reported := by
    refine fun state message error hstate herror => ⟨⟨hstate.cursor, ?_⟩, hstate.stored⟩
    exact hstate.reports.cons rfl fun _ _ heq => by
      cases heq
      exact Or.inl herror
  aborted := fun _ herror => herror

theorem watches_runWhen (hbody : body.Reads settings start place names.enter inner)
    (condition : Value) : (runWhen condition body).Watches settings start place names := by
  intro cursor hstands
  unfold runWhen
  split
  · exact (hbody.watches cursor hstands).imp (fun _ h => ⟨h.toWatched, h.stored.enter⟩)
      (fun _ _ h => h) (fun _ _ h => h) fun _ h => h
  · exact (reads_pure ()).watches cursor hstands
  · exact fun _ hstate => ⟨hstate.toWatched, Error.allowedAt_invalidParameters place _ _⟩

section Ranges

theorem finishes_readable (extent : Extent) :
    (Run.finish extent).Ensures settings (fun state => ∃ cursor, Readable start names cursor state)
      (fun failure? after => (∃ cursor, Readable start names cursor after) ∧
        ∀ error, failure? = some error → ¬ error.IsUnset)
      (fun error after => (∃ cursor, Readable start names cursor after) ∧ ¬ error.IsUnset)
      start.ReportsSince := by
  rintro state ⟨cursor, hstate⟩
  refine ⟨⟨cursor, ⟨hstate.cursor, hstate.reports⟩, hstate.stored⟩, fun error hfailure => ?_⟩
  obtain ⟨_, _, rfl⟩ := Folder.unwritten_of_writeAll hfailure
  exact fun h => h

/-- Between two blocks of a range the variables around it are stored, and the cursor is empty. -/
theorem rangeSteps_readable :
    BlockRange.RangeSteps settings (Readable start names .empty)
      (fun block => Readable start names (.atBlock block))
      (fun state => ∃ cursor, Readable start names cursor state) (fun error => ¬ error.IsUnset)
      start.ReportsSince where
  retrieval :=
    ⟨fun _ h => ⟨⟨h.cursor, h.reports.cons rfl (by simp)⟩, h.stored⟩,
      fun _ _ h => ⟨⟨h.cursor, h.reports.cons rfl (by simp)⟩, h.stored⟩,
      fun _ _ _ h => ⟨⟨h.cursor, h.reports.cons rfl (by simp)⟩, h.stored⟩⟩
  outside := settles_readable
  inside := by
    refine ⟨fun state message error hstate herror => ?_, fun _ herror => herror⟩
    obtain ⟨cursor, hstate⟩ := hstate
    exact ⟨cursor, settles_readable.reported state message error hstate herror⟩
  enter := fun _ _ h => ⟨⟨rfl, h.reports.cons rfl (by simp)⟩, h.stored⟩
  leave := fun _ ⟨_, h⟩ => ⟨⟨rfl, h.reports⟩, h.stored⟩
  finished := finishes_readable
  closed := fun h => h
  refused := fun _ _ h => h
  lost := fun _ _ h => h
  unfinished := fun _ h => h.reports

/-- A body finds the variables around the range for each block, and leaves them stored. -/
theorem ensures_blockReadable (hbody : body.Reads settings start (some .block) names.enter inner)
    (hsteady : body.Steady settings (Holding names []) Eq framedBody) (block : Block) :
    body.Ensures settings (Readable start names (.atBlock block))
      (fun _ after => ∃ cursor, Readable start names cursor after)
      (fun error after => (∃ cursor, Readable start names cursor after) ∧ ¬ error.IsUnset)
      start.ReportsSince :=
  Ensures.imp (hbody.sustains_body hsteady (Cursor.standsAt_atBlock block)) (fun _ h => h)
    (fun _ _ h => ⟨_, h⟩) (fun _ _ h => ⟨⟨_, h.1⟩, Error.not_isUnset_of_allowedAt h.2⟩)
    fun _ h => h

theorem watches_blocks (hbody : body.Reads settings start (some .block) names.enter inner)
    (hsteady : body.Steady settings (Holding names []) Eq framedBody) (first : Int)
    (last : Option Int) :
    (BlockRange.visitAll body first last).Watches settings start none names := by
  intro cursor hstands
  obtain rfl := hstands.set.eq_empty
  exact Ensures.imp (BlockRange.sustains_visitAll rangeSteps_readable
    (ensures_blockReadable hbody hsteady) first last) (fun _ h => h) (fun _ _ h => h.toWatched)
    (fun _ _ h => ⟨h.1.toWatched, Or.inl h.2⟩) fun _ h => h

end Ranges

section Transactions

/-- The variables around the visits of transactions are stored, and the cursor is back, behind
each of them. -/
theorem sustains_transactionsReadable
    (hbody : body.Reads settings start (some .transaction) names.enter inner)
    (hsteady : body.Steady settings (Holding names []) Eq framedBody)
    (hstands : cursor.StandsAt (some .block)) (indices : List Nat) :
    (TransactionFilter.visitAll body indices).Sustains settings (Readable start names cursor)
      (fun error => ¬ error.IsUnset) start.ReportsSince := by
  obtain ⟨block, hblock⟩ := hstands.set.exists_block (by simp)
  refine TransactionFilter.sustains_visitAll
    (B := fun _ state => ∃ next : Cursor, next.StandsAt (some .transaction) ∧
      next.withoutTransaction = cursor ∧ Readable start names next state)
    (I := fun state => ∃ next : Cursor, next.withoutTransaction = cursor ∧
      Readable start names next state) settles_readable ?_ ?_ ?_ ?_ indices
  · intro visited index next hvisited hnext
    rw [hvisited.cursor] at hnext
    refine ⟨next, hstands.atTransaction hnext, ?_, ⟨rfl, hvisited.reports⟩, hvisited.stored⟩
    obtain ⟨_, _, _, rfl⟩ := Cursor.of_atTransaction_ok hnext
    exact hstands.set.withoutTransaction
  · intro visited index error hvisited houtside
    have hunsuitable := Cursor.failsOnly_atTransaction
      (by rw [hvisited.cursor]; exact hblock) index error houtside
    exact Error.not_isUnset_of_allowedAt (hunsuitable.allowedAt (some .block))
  · rintro index begun ⟨next, hnext, hleave, hbegun⟩
    exact (hbody.sustains_body hsteady hnext begun hbegun).imp (fun _ _ h => ⟨next, hleave, h⟩)
      (fun _ _ h => ⟨⟨next, hleave, h.1⟩, Error.not_isUnset_of_allowedAt h.2⟩) fun _ h => h
  · rintro ended ⟨next, hleave, hended⟩
    exact ⟨⟨by rw [← hleave, ← hended.cursor], hended.reports⟩, hended.stored⟩

theorem watches_transactions
    (hbody : body.Reads settings start (some .transaction) names.enter inner)
    (hsteady : body.Steady settings (Holding names []) Eq framedBody)
    (senders recipients : AddressSet) :
    (TransactionFilter.run senders recipients body).Watches settings start (some .block) names := by
  intro cursor hstands state hstate
  obtain ⟨block, hblock⟩ := hstands.set.exists_block (by simp)
  rw [← hstate.cursor] at hblock
  simp only [TransactionFilter.run, run_bind, run_state, hblock]
  exact (sustains_transactionsReadable hbody hsteady hstands _ state hstate).imp
    (fun _ _ h => h.toWatched) (fun _ _ h => ⟨h.1.toWatched, Or.inl h.2⟩) fun _ h => h

end Transactions

section LogEntries

/-- The cursor is back where it was as soon as it leaves the log entry. -/
def Within (start : RunState σ) (cursor : Cursor) (state : RunState σ) : Prop :=
  ∃ next : Cursor, next.withoutLogEntry = cursor ∧ Watched start next state

theorem ensures_enterWatched (hstands : cursor.StandsAt (some .transaction)) (event : EventDecl)
    (index : Nat) :
    (LogEntryFilter.enter event index).Ensures settings (Watched start cursor)
      (fun _ after => ∃ next : Cursor, next.StandsAt (some .logEntry) ∧
        next.withoutLogEntry = cursor ∧ Watched start next after)
      (fun error after => Within start cursor after ∧ error.IsUnsuitable) start.ReportsSince := by
  obtain ⟨transaction, htransaction⟩ := hstands.exists_transaction
  have hleave : cursor.withoutLogEntry = cursor := hstands.set.withoutLogEntry (by simp)
  intro state hstate
  simp only [LogEntryFilter.enter, run_bind, run_state, hstate.cursor]
  cases hnext : cursor.atLogEntry index with
  | error error =>
      exact ⟨⟨cursor, hleave, hstate⟩,
        Cursor.failsOnly_atLogEntry htransaction index error hnext⟩
  | ok next =>
      obtain ⟨entry, hentry⟩ := Cursor.exists_logEntry hnext
      have hback : next.withoutLogEntry = cursor := by
        obtain ⟨_, _, _, rfl⟩ := Cursor.of_atLogEntry_ok hnext
        exact hleave
      simp only [run_ofExcept_ok, setCursor, run_modify, hentry]
      cases hdecode : event.decode entry.topics entry.data with
      | ok decoded => exact ⟨next, hstands.atLogEntry hnext, hback, rfl, hstate.reports⟩
      | error error =>
          exact ⟨⟨next, hback, rfl, hstate.reports⟩,
            event.failsOnly_decode entry.topics entry.data error hdecode⟩

variable {event stored : EventDecl}

variable (settings) in
/-- A visit of a log entry finds the variables around it, and sets its parameters. -/
theorem ensures_beginLogEntry (hsound : names.Sound)
    (hvars : ∀ var ∈ Plan.eventVars event, '#' ∉ var.1.toList) (hshape : event.SameShape stored)
    (hstored : stored.parameters.map (·.name) = (names.enter.declareAll (Plan.eventVars event)).1)
    (hstands : cursor.StandsAt (some .transaction)) (index : Nat) :
    (do
      let decoded ← LogEntryFilter.enter stored index
      decoded.forM fun (name, value) => Run.assign name value
      return decoded).Ensures settings (Readable start names cursor)
        (fun _ after => ∃ next : Cursor, next.StandsAt (some .logEntry) ∧
          next.withoutLogEntry = cursor ∧
          Readable start (names.enter.declareAll (Plan.eventVars event)).2 next after)
        (fun error after => Within start cursor after ∧ ¬ error.IsUnset) start.ReportsSince := by
  have hset : (do
      let decoded ← LogEntryFilter.enter stored index
      decoded.forM fun (name, value) => Run.assign name value
      return decoded).Simulates settings (Holding names [])
        (Holding (names.enter.declareAll (Plan.eventVars event)).2 []) (fun _ _ => True)
        (fun _ _ => True) (do
          let decoded ← LogEntryFilter.enter event index
          Run.modifyFrames fun frames => Frames.declareAll ([] :: frames)
            (Binding.zip (Plan.eventVars event) (decoded.map Prod.snd))) :=
    LogEntryFilter.simulates_set settings hsound hvars hshape hstored (by simp)
      (fun _ _ _ => trivial)
      (f := Pure.pure) (g := fun values => Run.modifyFrames fun frames =>
        Frames.declareAll ([] :: frames) (Binding.zip (Plan.eventVars event) values))
      (fun _ hlength _ _ hrelated => .ok trivial
        ⟨{ hrelated.view with chain := hrelated.view.chain }, hrelated.agree.declareAll hlength⟩)
      index
  have hbegins : (do
      let decoded ← LogEntryFilter.enter stored index
      decoded.forM fun (name, value) => Run.assign name value
      return decoded).Ensures settings (Watched start cursor)
        (fun _ after => ∃ next : Cursor, next.StandsAt (some .logEntry) ∧
          next.withoutLogEntry = cursor ∧ Watched start next after)
        (fun error after => Within start cursor after ∧ error.IsUnsuitable)
        start.ReportsSince := by
    refine (ensures_enterWatched hstands stored index).bind fun decoded => ?_
    rintro entered ⟨next, hnext, hback, hentered⟩
    have hassigned : (decoded.forM fun (name, value) => Run.assign name value).Sustains settings
        (Watched start next) (fun _ => False) start.ReportsSince :=
      sustains_assignAll operandStable_watched decoded
    refine ((hassigned.bind fun _ => sustains_pure decoded) entered hentered).imp ?_ ?_ ?_
    · exact fun _ _ h => ⟨next, hnext, hback, h⟩
    · exact fun _ _ h => h.2.elim
    · exact fun _ h => h
  refine (hbegins.and hset.ensures).imp (fun _ h => ⟨h.toWatched, h.stored⟩) ?_ ?_ fun _ h => h.1
  · rintro _ after ⟨⟨next, hnext, hback, hafter⟩, hdeclared⟩
    exact ⟨next, hnext, hback, hafter, hdeclared⟩
  · rintro error after ⟨⟨hafter, hunsuitable⟩, _⟩
    exact ⟨hafter, Error.not_isUnset_of_allowedAt (hunsuitable.allowedAt (some .block))⟩

theorem ensures_visitLogEntryReadable (hsound : names.Sound)
    (hvars : ∀ var ∈ Plan.eventVars event, '#' ∉ var.1.toList) (hshape : event.SameShape stored)
    (hstored : stored.parameters.map (·.name) = (names.enter.declareAll (Plan.eventVars event)).1)
    (hevaluates : Evaluates settings (names.enter.declareAll (Plan.eventVars event)).2 inner Eq body
      framedBody)
    (hbody : body.Reads settings start (some .logEntry)
      (names.enter.declareAll (Plan.eventVars event)).2 inner)
    (hstands : cursor.StandsAt (some .transaction)) (index : Nat) :
    (LogEntryFilter.visit stored body index).Ensures settings (Readable start names cursor)
      (fun _ after => Within start cursor after ∧ names.Stored after.store)
      (fun error after => (Within start cursor after ∧ names.Stored after.store) ∧
        ¬ error.IsUnset) start.ReportsSince := by
  have hsteady : (LogEntryFilter.visit stored body index).Steady settings (Holding names []) Eq _ :=
    LogEntryFilter.steady_visit hsound hvars hshape hstored hevaluates (by simp) index
  have hvisit : LogEntryFilter.visit stored body index = ((do
      let decoded ← LogEntryFilter.enter stored index
      decoded.forM fun (name, value) => Run.assign name value
      return decoded) >>= fun decoded => do
        let outcome ← body.attempt
        Run.erase (decoded.map (·.1))
        Run.ofExcept outcome) := by
    simp only [LogEntryFilter.visit, bind_assoc, pure_bind]
  have hends : (LogEntryFilter.visit stored body index).Ensures settings
      (Readable start names cursor) (fun _ after => Within start cursor after)
      (fun error after => Within start cursor after ∧ ¬ error.IsUnset) start.ReportsSince := by
    rw [hvisit]
    refine (ensures_beginLogEntry settings hsound hvars hshape hstored hstands index).bind
      fun decoded => ?_
    rintro begun ⟨next, hnext, hback, hbegun⟩
    -- the cursor of the body and its reports outlast the variables that are removed
    have hundone : (do
        let outcome ← body.attempt
        Run.erase (decoded.map Prod.fst)
        Run.ofExcept outcome).Ensures settings _ (fun _ => Watched start next)
          (fun error after => Watched start next after ∧ error.AllowedAt (some .logEntry))
          start.ReportsSince :=
      ensures_undone (hbody.watches next hnext) fun _ hafter => ⟨hafter.cursor, hafter.reports⟩
    exact (hundone begun hbegun).imp (fun _ _ h => ⟨next, hback, h⟩)
      (fun _ _ h => ⟨⟨next, hback, h.1⟩, Error.not_isUnset_of_allowedAt h.2⟩) fun _ h => h
  refine (hends.and hsteady.ensures).imp (fun _ h => ⟨h, h.stored⟩) (fun _ _ h => h) ?_
    fun _ h => h.1
  exact fun _ _ h => ⟨⟨h.1.1, h.2⟩, h.1.2⟩

theorem sustains_logEntriesReadable (hsound : names.Sound)
    (hvars : ∀ var ∈ Plan.eventVars event, '#' ∉ var.1.toList) (hshape : event.SameShape stored)
    (hstored : stored.parameters.map (·.name) = (names.enter.declareAll (Plan.eventVars event)).1)
    (hevaluates : Evaluates settings (names.enter.declareAll (Plan.eventVars event)).2 inner Eq body
      framedBody)
    (hbody : body.Reads settings start (some .logEntry)
      (names.enter.declareAll (Plan.eventVars event)).2 inner)
    (hstands : cursor.StandsAt (some .transaction)) (indices : List Nat) :
    (LogEntryFilter.visitEach stored.name (LogEntryFilter.visit stored body) indices).Sustains
      settings (Readable start names cursor) (fun error => ¬ error.IsUnset) start.ReportsSince := by
  refine LogEntryFilter.sustains_visitEach settles_readable
    (ensures_visitLogEntryReadable hsound hvars hshape hstored hevaluates hbody hstands) ?_
    stored.name indices
  rintro ended ⟨⟨next, hback, hended⟩, hdeclared⟩
  exact ⟨⟨by rw [← hback, ← hended.cursor], hended.reports⟩, hdeclared⟩

theorem watches_logEntries (hsound : names.Sound)
    (hvars : ∀ var ∈ Plan.eventVars event, '#' ∉ var.1.toList) (hshape : event.SameShape stored)
    (hstored : stored.parameters.map (·.name) = (names.enter.declareAll (Plan.eventVars event)).1)
    (hevaluates : Evaluates settings (names.enter.declareAll (Plan.eventVars event)).2 inner Eq body
      framedBody)
    (hbody : body.Reads settings start (some .logEntry)
      (names.enter.declareAll (Plan.eventVars event)).2 inner) (emitters : AddressSet) :
    (LogEntryFilter.run stored emitters body).Watches settings start (some .transaction) names := by
  intro cursor hstands state hstate
  obtain ⟨transaction, htransaction⟩ := hstands.exists_transaction
  rw [← hstate.cursor] at htransaction
  simp only [LogEntryFilter.run, LogEntryFilter.visitMatching, run_bind, run_state, htransaction]
  exact (sustains_logEntriesReadable hsound hvars hshape hstored hevaluates hbody hstands _ state
    hstate).imp (fun _ _ h => h.toWatched) (fun _ _ h => ⟨h.1.toWatched, Or.inl h.2⟩) fun _ h => h

end LogEntries

section Contracts

theorem reads_target (hplace : place ≠ none) (address : Value) :
    (ContractFilter.target address).Reads settings start place names names := by
  unfold ContractFilter.target
  split
  · intro cursor hstands state hstate
    obtain ⟨block, hblock⟩ := hstands.set.exists_block hplace
    simp only [run_bind, run_state, hstate.cursor, hblock]
    exact hstate
  · exact reads_fail (Error.allowedAt_invalidParameters place _ _)

theorem watches_ask (target : Address × Int) (member : String) (inputs : List Value)
    (types : List String) :
    (ContractFilter.ask target member inputs types).Watches settings start place names := by
  refine watches_of_sustains fun cursor hstands => ?_
  apply (sustains_query operandStable_watched (expects_watched hstands) _).bind
  intro values
  split
  · exact (sustains_fail (Error.allowedAt_invalidParameters place _ _)).bind fun _ => sustains_pure _
  · exact sustains_pure _

end Contracts

end Run

namespace Plan

variable {library : Library} {first middle declared : Names}

/-- A question reads what is set, and what it sets itself is not visible to later inputs. -/
theorem MemberQuery.reads_read (target : Address × Int) {query : MemberQuery} {read : MemberRead}
    {inputTypes : List ValueType} {vars : List (String × ValueType)} {names next opened : Names}
    (hasks : Asks library place query read inputTypes vars names next opened)
    (hopened : opened.Sound) (hissued : ∀ storage, next.Issued storage → opened.Issued storage) :
    (ContractFilter.read target read).Reads settings start place names next := by
  have hwatches : (ContractFilter.read target read).Watches settings start place names :=
    (Operand.reads_evaluateAll query.inputs hasks.plainInputs hasks.sound
      hasks.ofInputs).watches_bind fun values cursor hstands =>
        (Run.watches_ask target read.member values _ cursor hstands).bind fun _ =>
          Run.sustains_assignAll Run.operandStable_watched _
  have hsimulates : Run.Simulates settings (Holding names []) (Holding next []) (Left names []) Eq
      (ContractFilter.read target read >>= fun _ => pure ()) _ :=
    simulates_read target hasks hopened hissued (by simp) (by simp) (fun _ _ h => h)
      (g := fun _ => pure ())
      fun values _ _ _ hrelated => .ok rfl ⟨hrelated.view, hrelated.agree.framed, by simp⟩
  rw [bind_pure_unit] at hsimulates
  exact hwatches.reads hsimulates

theorem MemberQuery.reads_reads (target : Address × Int) {queries : List MemberQuery}
    {names middle opened declared : Names} {inputs : List (List ChainExtract.Operand)}
    {reads : List MemberRead}
    (hcompiled : Compiled library place queries inputs reads names middle opened declared) :
    (reads.forM (ContractFilter.read target)).Reads settings start place names middle := by
  induction queries generalizing names opened inputs reads with
  | nil =>
      obtain ⟨rfl, rfl⟩ := Compiler.of_pure_ok hcompiled.ofInputs
      obtain ⟨rfl, rfl⟩ := Compiler.of_pure_ok hcompiled.ofReads
      exact Run.reads_pure ()
  | cons query queries ih =>
      obtain ⟨read, laterReads, laterInputs, inputTypes, vars, next, rfl, hasks, hrest⟩ :=
        hcompiled.of_cons settings
      have hnext := hrest.advances_inputs settings
      have hread : (ContractFilter.read target read).Reads settings start place names next :=
        reads_read target hasks hcompiled.startSound
          fun storage hused => hcompiled.issued storage (hnext.issued hused)
      rw [List.forM]
      exact hread.bind fun _ => ih hrest

theorem MemberQuery.reads_asks (hplace : place ≠ none) {contract : ChainExtract.Operand}
    {queries : List MemberQuery} {opened : Names} {inputs : List (List ChainExtract.Operand)}
    {reads : List MemberRead}
    (hcontract : contract.evaluate.Reads settings start place names first)
    (hcompiled : Compiled library place queries inputs reads first middle opened declared) :
    (do
      let target ← ContractFilter.target (← contract.evaluate)
      reads.forM (ContractFilter.read target)).Reads settings start place names middle :=
  hcontract.bind fun value => (Run.reads_target hplace value).bind fun target =>
    MemberQuery.reads_reads target hcompiled

/-- Questions are asked and answered, and what was returned is visible behind them. -/
theorem MemberQuery.reads_opening (hplace : place ≠ none) {address : Operand}
    {contract : ChainExtract.Operand} {queries : List MemberQuery}
    {inputs : List (List ChainExtract.Operand)} {reads : List MemberRead}
    (haddress : Evaluates settings names first (fun value result => result.1 = value)
      contract.evaluate (address.interpret library))
    (hcontract : contract.evaluate.Reads settings start place names first)
    (hcompiled : Compiled library place queries inputs reads first middle middle.enter declared) :
    (do
      let target ← ContractFilter.target (← contract.evaluate)
      reads.forM (ContractFilter.read target)).Reads settings start place names declared :=
  (MemberQuery.reads_asks hplace hcontract hcompiled).watches.reads
    (MemberQuery.simulates_opening haddress hcompiled)

/-- Behind all questions a body finds what was returned, which is removed however it ends. -/
theorem MemberQuery.watches_contract {contract : ChainExtract.Operand} {reads : List MemberRead}
    (hopening : (do
      let target ← ContractFilter.target (← contract.evaluate)
      reads.forM (ContractFilter.read target)).Reads settings start place names declared)
    (hbody : body.Reads settings start place declared inner) :
    (ContractFilter.run contract reads body).Watches settings start place names := by
  intro cursor hstands
  have hrun := (hopening.bind fun _ => hbody).watches cursor hstands
  refine Run.ensures_undone (I := Watched start cursor) ?_ fun _ h => ⟨h.cursor, h.reports⟩
  simpa only [ContractFilter.readAndRun, bind_assoc] using hrun

end Plan

end ChainExtract
