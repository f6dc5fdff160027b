import ChainExtract.Proofs.Cursor.Items
import ChainExtract.Proofs.Scoping.Visible

/-! # Variables that a run spares

Instructions set variables, each time with an entry in the journal, and filters remove those that
they inject. A contract filter does so whether or not it has come to set them. So a run spares a
variable, however it ends, that it does not assign and in which no contract filter that is started
takes answers.
-/

namespace ChainExtract

variable {σ α : Type} {settings : Settings σ}

theorem Store.get?_eraseAll_of_mem (store : Store) {names : List String} {name : String}
    (hname : name ∈ names) : (store.eraseAll names).get? name = none := by
  induction names generalizing store with
  | nil => cases hname
  | cons first rest ih =>
      by_cases hrest : name ∈ rest
      · exact ih _ hrest
      · obtain rfl := (List.mem_cons.mp hname).resolve_right hrest
        exact (get?_eraseAll_of_notMem _ hrest).trans (store.get?_erase_self name)

namespace RunState

/-- Since the earlier state the variable has been assigned. -/
def Assigned (earlier later : RunState σ) (name : String) : Prop :=
  ∃ value, JournalEntry.assigned name value ∈ later.since earlier

/-- A variable that is not removed, or had not been set, is as in the earlier state unless it has
been assigned since. -/
structure Spares (removed : String → Prop) (earlier later : RunState σ) : Prop where
  extended : Run.Extends earlier later
  kept : ∀ name, (removed name → earlier.store.get? name = none) →
    later.store.get? name = earlier.store.get? name ∨ earlier.Assigned later name

variable {removed : String → Prop} {earlier later last : RunState σ}

theorem Assigned.before {name : String} (hfirst : Run.Extends earlier later)
    (hassigned : later.Assigned last name) (hsecond : Run.Extends later last) :
    earlier.Assigned last name := by
  obtain ⟨value, hvalue⟩ := hassigned
  exact ⟨value, by rw [since_append hfirst hsecond]; exact List.mem_append_right _ hvalue⟩

theorem Assigned.behind {name : String} (hassigned : earlier.Assigned later name)
    (hfirst : Run.Extends earlier later) (hsecond : Run.Extends later last) :
    earlier.Assigned last name := by
  obtain ⟨value, hvalue⟩ := hassigned
  exact ⟨value, by rw [since_append hfirst hsecond]; exact List.mem_append_left _ hvalue⟩

theorem Spares.refl (state : RunState σ) : state.Spares removed state :=
  ⟨List.suffix_refl _, fun _ _ => .inl rfl⟩

theorem Spares.trans (hfirst : earlier.Spares removed later)
    (hsecond : later.Spares removed last) : earlier.Spares removed last := by
  refine ⟨hfirst.extended.trans hsecond.extended, fun name hname => ?_⟩
  -- a variable that may be removed later was not set at first, and is not set in between
  rcases hfirst.kept name hname with hsame | hassigned
  · rcases hsecond.kept name fun hremoved => hsame.trans (hname hremoved) with hkept | hassigned
    · exact .inl (hkept.trans hsame)
    · exact .inr (hassigned.before hfirst.extended hsecond.extended)
  · exact .inr (hassigned.behind hfirst.extended hsecond.extended)

/-- What leaves the store alone spares everything. -/
theorem Spares.of_store (hspares : earlier.Spares removed later)
    (hextends : Run.Extends later last) (hstore : last.store = later.store) :
    earlier.Spares removed last :=
  hspares.trans ⟨hextends, fun _ _ => .inl (by rw [hstore])⟩

theorem assigned_set (state : RunState σ) (name : String) (value : Value) :
    state.Assigned { state with
      store := state.store.set name value
      journal := .assigned name value :: state.journal } name :=
  ⟨value, by simp [since]⟩

theorem Spares.set (hspares : earlier.Spares removed later) (name : String) (value : Value) :
    earlier.Spares removed { later with
      store := later.store.set name value
      journal := .assigned name value :: later.journal } := by
  refine hspares.trans ⟨List.suffix_cons _ _, fun other _ => ?_⟩
  by_cases hother : name = other
  · exact .inr (hother ▸ later.assigned_set name value)
  · exact .inl (later.store.get?_set_of_ne hother value)

/-- What has been assigned may be removed, and so may what is said to be. -/
theorem Spares.eraseAll (hspares : earlier.Spares removed later) {names : List String}
    (hnames : ∀ name ∈ names, removed name ∨ earlier.Assigned later name) :
    earlier.Spares removed { later with store := later.store.eraseAll names } := by
  refine ⟨hspares.extended, fun name hname => ?_⟩
  by_cases hmem : name ∈ names
  · rcases hnames name hmem with hremoved | hassigned
    · exact .inl ((later.store.get?_eraseAll_of_mem hmem).trans (hname hremoved).symm)
    · exact .inr hassigned
  · rw [later.store.get?_eraseAll_of_notMem hmem]
    exact hspares.kept name hname

/-- Besides, the variables that a filter has injected are not set any more. -/
structure Confines (injected : List String) (removed : String → Prop) (earlier later : RunState σ) :
    Prop extends Spares removed earlier later where
  gone : ∀ name ∈ injected, later.store.get? name = none

theorem Spares.confines (hspares : earlier.Spares removed later) {names : List String}
    (hnames : ∀ name ∈ names, removed name ∨ earlier.Assigned later name) :
    earlier.Confines names removed { later with store := later.store.eraseAll names } :=
  ⟨hspares.eraseAll hnames, fun _ hname => later.store.get?_eraseAll_of_mem hname⟩

theorem visitStable_spares (removed : String → Prop) (earlier : RunState σ) :
    Run.VisitStable settings (earlier.Spares removed) :=
  ⟨fun _ _ hspares => hspares.of_store (List.suffix_refl _) rfl,
    fun _ _ _ hspares => hspares.of_store (List.suffix_cons _ _) rfl⟩

theorem operandStable_spares (removed : String → Prop) (earlier : RunState σ) :
    Run.OperandStable settings (earlier.Spares removed) :=
  ⟨fun _ name value hspares => hspares.set name value,
    fun _ _ hspares => hspares.of_store (List.suffix_cons _ _) rfl⟩

end RunState

/-- The run has ended, however it has, in a state that spares what is not removed. -/
def Outcome.Spares (removed : String → Prop) (state : RunState σ) (outcome : Outcome σ α) : Prop :=
  outcome.Satisfies (fun _ => state.Spares removed) (fun _ => state.Spares removed) fun _ => False

/-- The run has ended, however it has, with the injected variables removed. -/
def Outcome.Confines (injected : List String) (removed : String → Prop) (state : RunState σ)
    (outcome : Outcome σ α) : Prop :=
  outcome.Satisfies (fun _ => state.Confines injected removed)
    (fun _ => state.Confines injected removed) fun _ => False

theorem Outcome.Confines.spares {injected : List String} {removed : String → Prop}
    {state : RunState σ} {outcome : Outcome σ α}
    (hconfines : outcome.Confines injected removed state) : outcome.Spares removed state :=
  hconfines.imp (fun _ _ h => h.toSpares) (fun _ _ h => h.toSpares) fun _ h => h

namespace Run

variable {removed : String → Prop} {body : Run σ Unit}

/-- Wherever it begins, the run spares what is not removed. -/
def Spares (settings : Settings σ) (removed : String → Prop) (x : Run σ α) : Prop :=
  ∀ state, (x.run settings state).Spares removed state

theorem Spares.sustains {x : Run σ α} (hx : x.Spares settings removed) (start : RunState σ) :
    x.Sustains settings (start.Spares removed) (fun _ => True) fun _ => False :=
  fun state hstate => (hx state).imp (fun _ _ h => hstate.trans h)
    (fun _ _ h => ⟨hstate.trans h, trivial⟩) fun _ h => h

theorem Sustains.spares {x : Run σ α} {E : Error → Prop}
    (hx : ∀ start : RunState σ, x.Sustains settings (start.Spares removed) E fun _ => False) :
    x.Spares settings removed :=
  fun state => (hx state state (.refl state)).imp (fun _ _ h => h) (fun _ _ h => h.1) fun _ h => h

open Classical in
/-- The run where it spares what is not removed. Elsewhere it fails at once. -/
noncomputable def sparing (removed : String → Prop) (x : Run σ α) : Run σ α :=
  ⟨fun settings state =>
    if (x.run settings state).Spares removed state then x.run settings state
    else .failed .readerClosed state⟩

theorem run_sparing {x : Run σ α} {state : RunState σ}
    (hspares : (x.run settings state).Spares removed state) :
    (x.sparing removed).run settings state = x.run settings state :=
  if_pos hspares

theorem spares_sparing (x : Run σ α) : (x.sparing removed).Spares settings removed := by
  intro state
  unfold sparing
  by_cases hspares : (x.run settings state).Spares removed state
  · simpa only [if_pos hspares] using hspares
  · simp only [if_neg hspares]
    exact .refl state

theorem spares_transactions (hbody : body.Spares settings removed)
    (senders recipients : AddressSet) :
    (TransactionFilter.run senders recipients body).Spares settings removed := by
  refine Sustains.spares (E := fun _ => True) fun start => ?_
  have hvisits : VisitStable settings _ := RunState.visitStable_spares removed start
  apply ensures_state.bind
  rintro found state ⟨hstate, rfl⟩
  split
  · exact sustains_fail trivial found hstate
  · exact TransactionFilter.sustains_visitAll hvisits.settles
      (fun state _ cursor hstate _ => hvisits.cursor state cursor hstate) (fun _ _ _ _ _ => trivial)
      (fun _ => hbody.sustains start) (fun state => hvisits.cursor state _) _ found hstate

theorem sustains_enter {P U : RunState σ → Prop}
    (hcursor : ∀ state cursor, P state → P { state with cursor })
    (event : EventDecl) (index : Nat) :
    (LogEntryFilter.enter event index).Sustains settings P (fun _ => True) U := by
  apply ensures_state.bind
  rintro found state ⟨hstate, rfl⟩
  cases found.cursor.atLogEntry index with
  | error error => exact ⟨hstate, trivial⟩
  | ok next =>
      have hpointing := hcursor found next hstate
      simp only [run_bind, run_ofExcept_ok, setCursor, run_modify, run_state]
      split
      next entry _ => exact sustains_ofExcept (fun _ _ => trivial) _ hpointing
      next => exact hpointing

/-- Variables that are set one after the other have all been assigned. -/
theorem spares_assignAll {values : List (String × Value)} {state after : RunState σ}
    (hrun : (values.forM fun (name, value) => Run.assign name value).run settings state =
      .ok () after) :
    state.Spares removed after ∧ ∀ name ∈ values.map (·.1), state.Assigned after name := by
  induction values generalizing state with
  | nil =>
      obtain ⟨_, rfl⟩ := Outcome.ok.inj hrun
      exact ⟨.refl state, by simp⟩
  | cons first rest ih =>
      have hset : state.Spares removed _ := (RunState.Spares.refl state).set first.1 first.2
      obtain ⟨hrest, hassigned⟩ := ih hrun
      refine ⟨hset.trans hrest, fun name hname => ?_⟩
      rcases List.mem_cons.mp hname with rfl | hlater
      · exact (state.assigned_set first.1 first.2).behind hset.extended hrest.extended
      · exact (hassigned name hlater).before hset.extended hrest.extended

/-- Behind a run, however it ends, variables are removed that may be. -/
theorem confines_undone {x : Run σ Unit} {I : RunState σ → Prop} {first state : RunState σ}
    {names : List String}
    (hx : (x.run settings first).Satisfies (fun _ => I) (fun _ => I) fun _ => False)
    (hleft : ∀ after, I after → state.Spares removed after ∧
      ∀ name ∈ names, removed name ∨ state.Assigned after name) :
    ((do
      let outcome ← x.attempt
      Run.erase names
      Run.ofExcept outcome).run settings first).Confines names removed state := by
  have hruns : x.Ensures settings (· = first) (fun _ => I) (fun _ after => I after ∧ True)
      fun _ => False := by
    rintro _ rfl
    exact hx.imp (fun _ _ h => h) (fun _ _ h => ⟨h, trivial⟩) fun _ h => h
  exact (ensures_undone hruns (fun after hafter => (hleft after hafter).1.confines
    (hleft after hafter).2) first rfl).imp (fun _ _ h => h) (fun _ _ h => h.1) fun _ h => h

/-- A log entry that can be decoded: what it injects has been assigned, so it may be removed. -/
theorem confines_visit_of_enter (hbody : body.Spares settings removed) {event : EventDecl}
    {index : Nat} {state entered : RunState σ} {decoded : List (String × Value)}
    (henter : (LogEntryFilter.enter event index).run settings state = .ok decoded entered) :
    ((LogEntryFilter.visit event body index).run settings state).Confines (decoded.map (·.1))
      removed state := by
  have hvisits : VisitStable settings _ := RunState.visitStable_spares removed state
  have hentered : state.Spares removed entered :=
    (sustains_enter (U := fun _ => False) hvisits.cursor event index).of_ok (.refl state) henter
  obtain ⟨begun, hassign⟩ := exists_assignAll decoded settings entered
  obtain ⟨hset, hassigned⟩ : entered.Spares removed begun ∧ _ := spares_assignAll hassign
  rw [LogEntryFilter.visit, run_bind, henter]
  simp only [run_bind _ _ settings entered, hassign]
  refine confines_undone (hbody begun) fun after hafter => ⟨(hentered.trans hset).trans hafter,
    fun name hname => .inr ?_⟩
  exact ((hassigned name hname).before hentered.extended hset.extended).behind
    (hentered.trans hset).extended hafter.extended

theorem spares_visitLogEntry (hbody : body.Spares settings removed) (event : EventDecl)
    (index : Nat) : (LogEntryFilter.visit event body index).Spares settings removed := by
  intro state
  have hvisits : VisitStable settings _ := RunState.visitStable_spares removed state
  have henters : (LogEntryFilter.enter event index).Sustains settings (state.Spares removed)
      (fun _ => True) fun _ => False := sustains_enter hvisits.cursor event index
  have hends := henters state (.refl state)
  cases henter : (LogEntryFilter.enter event index).run settings state with
  | ok decoded entered => exact (confines_visit_of_enter hbody henter).spares
  | failed error after =>
      rw [henter] at hends
      rw [LogEntryFilter.visit, run_bind, henter]
      exact hends.1
  | unfinished =>
      rw [henter] at hends
      exact hends.elim

theorem confines_contract (hbody : body.Spares settings removed) (address : Operand)
    {reads : List MemberRead} (hreads : ∀ name ∈ reads.flatMap MemberRead.names, removed name)
    (state : RunState σ) :
    ((ContractFilter.run address reads body).run settings state).Confines
      (reads.flatMap MemberRead.names) removed state := by
  have hasked : (do
      let target ← ContractFilter.target (← address.evaluate)
      reads.forM (ContractFilter.read target)).Sustains settings (state.Spares removed)
        (fun _ => True) fun _ => False :=
    (sustains_reads (RunState.operandStable_spares removed state) address reads).imp
      (fun _ _ => trivial) fun _ h => h
  have hrun : (ContractFilter.readAndRun address reads body).Sustains settings
      (state.Spares removed) (fun _ => True) fun _ => False := by
    simpa only [ContractFilter.readAndRun, bind_assoc] using
      hasked.bind fun _ => hbody.sustains state
  exact confines_undone ((hrun state (.refl state)).imp (fun _ _ h => h) (fun _ _ h => h.1)
    fun _ h => h) fun _ hafter => ⟨hafter, fun name hname => .inl (hreads name hname)⟩

theorem spares_logEntries (hbody : body.Spares settings removed) (event : EventDecl)
    (emitters : AddressSet) :
    (LogEntryFilter.run event emitters body).Spares settings removed := by
  refine Sustains.spares (E := fun _ => True) fun start => ?_
  have hvisits : VisitStable settings _ := RunState.visitStable_spares removed start
  apply ensures_state.bind
  rintro found state ⟨hstate, rfl⟩
  split
  · exact sustains_fail trivial found hstate
  · exact LogEntryFilter.sustains_visitEach hvisits.settles
      (fun index => (spares_visitLogEntry hbody event index).sustains start)
      (fun state => hvisits.cursor state _) _ _ found hstate

theorem spares_runWhen (hbody : body.Spares settings removed) (condition : Value) :
    (runWhen condition body).Spares settings removed := by
  unfold runWhen
  split
  · exact hbody
  · exact fun state => .refl state
  · exact fun state => .refl state

end Run

namespace Instruction

open Run

variable {removed : String → Prop} {body : Run σ Unit}

/-- The variables that the instruction removes behind its body, be it that it has not set them. -/
def removes : Instruction Empty → List String
  | .contract _ reads _ => reads.flatMap MemberRead.names
  | _ => []

theorem spares_simple {instruction : Instruction Empty} (hsimple : instruction.IsSimple)
    (state : RunState σ) :
    ((instruction.execute Empty.elim).run settings state).Spares removed state :=
  Sustains.spares (fun start => sustains_simple (RunState.operandStable_spares removed start)
    (fun _ _ hstate => hstate.of_store (List.suffix_cons _ _) rfl) Empty.elim hsimple) state

/-- With a body that spares what is not removed, so does the instruction. -/
theorem spares_around (hbody : body.Spares settings removed) {instruction : Instruction Empty}
    (hfree : instruction.RangeFree) (hremoves : ∀ name ∈ instruction.removes, removed name) :
    (instruction.around body).Spares settings removed := by
  have hstable (start : RunState σ) : OperandStable settings (start.Spares removed) :=
    RunState.operandStable_spares removed start
  cases instruction with
  | blocks => exact hfree.elim
  | transactions senders recipients code =>
      refine Sustains.spares (E := fun _ => True) fun start => ?_
      apply ((sustains_evaluateAddresses (hstable start) _ senders).imp (fun _ _ => trivial)
        fun _ h => h).bind
      intro senders
      apply ((sustains_evaluateAddresses (hstable start) _ recipients).imp (fun _ _ => trivial)
        fun _ h => h).bind
      intro recipients
      exact (spares_transactions hbody senders recipients).sustains start
  | logEntries event emitters code =>
      refine Sustains.spares (E := fun _ => True) fun start => ?_
      apply ((sustains_evaluateAddresses (hstable start) _ emitters).imp (fun _ _ => trivial)
        fun _ h => h).bind
      intro emitters
      exact (spares_logEntries hbody event emitters).sustains start
  | «when» condition code =>
      refine Sustains.spares (E := fun _ => True) fun start => ?_
      apply ((sustains_evaluate (hstable start) condition).imp (fun _ _ => trivial)
        fun _ h => h).bind
      intro value
      exact (spares_runWhen hbody value).sustains start
  | contract address reads code =>
      exact fun state => (confines_contract hbody address hremoves state).spares
  | assign | call | exportRow | exportLine | exportEvent => exact spares_simple trivial
  | further instruction => exact instruction.elim

section Starts

variable {instruction nested : Instruction Empty} {rest : List (Instruction Empty)}
variable {state begun here : RunState σ} {items : List Item}

/-- What starts in a body that an instruction begins, starts in a run of the instruction. -/
theorem Starts.of_begins (hbegins : instruction.Begins settings state begun)
    (hstarts : Starts settings instruction.body begun items nested here) :
    ∃ around, Starts settings (instruction :: rest) state around nested here := by
  cases hitems : instruction.visitsItems with
  | true =>
      obtain ⟨item, hvisits⟩ := (begins_iff_visits hitems).mp hbegins
      exact ⟨item :: items, .visit hvisits hstarts⟩
  | false => exact ⟨items, .body hitems hbegins hstarts⟩

/-- What starts in a run of the first instruction, starts in a run of the code. -/
theorem Starts.of_singleton (hstarts : Starts settings [instruction] state items nested here) :
    Starts settings (instruction :: rest) state items nested here := by
  cases hstarts with
  | first => exact .first
  | later _ hstarts => cases hstarts
  | visit hvisits hstarts => exact .visit hvisits hstarts
  | body hitems hbegins hstarts => exact .body hitems hbegins hstarts

end Starts

/-- The variables that an instruction removes that starts in a run of the code from the state. -/
def Removed (settings : Settings σ) (code : List (Instruction Empty)) (state : RunState σ)
    (name : String) : Prop :=
  ∃ items nested here, Starts settings code state items nested here ∧ name ∈ nested.removes

/-- The body of an instruction may be taken to spare in every state what it spares where it is
begun. -/
theorem run_around_sparing {instruction : Instruction Empty} {state : RunState σ}
    (hbody : ∀ begun, (∀ name, Removed settings instruction.body begun name → removed name) →
      ((executeAll Empty.elim instruction.body).run settings begun).Spares removed begun)
    (hremoved : ∀ name, Removed settings [instruction] state name → removed name) :
    (instruction.execute Empty.elim).run settings state =
      (instruction.around ((executeAll Empty.elim instruction.body).sparing removed)).run settings
        state := by
  -- the body is run in no other states than those in which the instruction begins it
  refine run_around_of_begins instruction fun begun hbegins => (run_sparing (hbody begun ?_)).symm
  rintro name ⟨items, nested, here, hstarts, hname⟩
  obtain ⟨around, hstarts⟩ := hstarts.of_begins hbegins
  exact hremoved name ⟨around, nested, here, hstarts, hname⟩

theorem spares_of_body {instruction : Instruction Empty} (hfree : instruction.RangeFree)
    {state : RunState σ}
    (hbody : ∀ begun, (∀ name, Removed settings instruction.body begun name → removed name) →
      ((executeAll Empty.elim instruction.body).run settings begun).Spares removed begun)
    (hremoved : ∀ name, Removed settings [instruction] state name → removed name) :
    ((instruction.execute Empty.elim).run settings state).Spares removed state := by
  rw [run_around_sparing hbody hremoved]
  refine spares_around (spares_sparing _) hfree (fun name hname => ?_) state
  exact hremoved name ⟨[], instruction, state, .first, hname⟩

mutual

/-- Without block ranges, an instruction spares what nothing removes that starts in its run. -/
theorem spares_execute : ∀ (instruction : Instruction Empty), instruction.RangeFree →
    ∀ state : RunState σ, (∀ name, Removed settings [instruction] state name → removed name) →
      ((instruction.execute Empty.elim).run settings state).Spares removed state
  | .blocks _ _ _, hfree, _, _ => hfree.elim
  | .transactions senders recipients body, hfree, _, hremoved =>
    spares_of_body hfree (spares_executeAll body hfree) hremoved
  | .logEntries event emitters body, hfree, _, hremoved =>
    spares_of_body hfree (spares_executeAll body hfree) hremoved
  | .when condition body, hfree, _, hremoved =>
    spares_of_body hfree (spares_executeAll body hfree) hremoved
  | .contract address reads body, hfree, _, hremoved =>
    spares_of_body hfree (spares_executeAll body hfree) hremoved
  | .assign _ _, _, _, _ | .call _ _ _, _, _, _ | .exportRow _ _, _, _, _ | .exportLine _, _, _, _
  | .exportEvent _ _ _, _, _, _ =>
    spares_simple (by trivial) _
  | .further instruction, _, _, _ => instruction.elim

theorem spares_executeAll : ∀ (code : List (Instruction Empty)), RangeFreeAll code →
    ∀ state : RunState σ, (∀ name, Removed settings code state name → removed name) →
      ((executeAll Empty.elim code).run settings state).Spares removed state
  | [], _, state, _ => by
      rw [executeAll]
      exact .refl state
  | instruction :: rest, hfree, state, hremoved => by
      have hfirst := spares_execute instruction hfree.1 state
        fun name ⟨items, nested, here, hstarts, hname⟩ =>
          hremoved name ⟨items, nested, here, hstarts.of_singleton, hname⟩
      rw [executeAll, run_bind]
      cases hrun : (instruction.execute Empty.elim).run settings state with
      | ok _ after =>
          rw [hrun] at hfirst
          -- what starts in the rest starts in the state that the first instruction has left
          have hrest := spares_executeAll rest hfree.2 after
            fun name ⟨items, nested, here, hstarts, hname⟩ =>
              hremoved name ⟨items, nested, here, .later hrun hstarts, hname⟩
          exact hrest.imp (fun _ _ h => hfirst.trans h) (fun _ _ h => hfirst.trans h) fun _ h => h
      | failed | unfinished =>
          rw [hrun] at hfirst
          exact hfirst

end

end Instruction

end ChainExtract
