import ChainExtract.Proofs.Injection.Freshness
import ChainExtract.Proofs.Injection.Sparing

/-! # Filters that inject variables

Wherever a compiled plan has a contract filter or a filter of log entries, and in whatever state it
is run, the variables that it injects are removed when it ends. All others are left alone by it and
by the filters nested in it, at any depth; only assignments change them.
-/

namespace ChainExtract

variable {σ : Type} {settings : Settings σ}

/-- The decoded variables of a log entry are the parameters of its event, in their order. -/
theorem EventDecl.map_fst_of_decode_ok {event : EventDecl} {topics : List Word} {data : Bytes}
    {decoded : List (String × Value)} (hdecode : event.decode topics data = .ok decoded) :
    decoded.map (·.1) = event.parameters.map (·.name) := by
  obtain ⟨result, hlength, hresult⟩ := event.exists_decode topics data
  rw [hresult event (.refl event)] at hdecode
  cases result with
  | error error => cases hdecode
  | ok values =>
      obtain rfl := Except.ok.inj hdecode
      exact List.map_fst_zip (by rw [List.length_map, hlength values rfl])

namespace LogEntryFilter

variable {event : EventDecl} {index : Nat} {state after : RunState σ}

theorem map_fst_of_enter_ok {decoded : List (String × Value)}
    (henter : (enter event index).run settings state = .ok decoded after) :
    decoded.map (·.1) = event.parameters.map (·.name) := by
  simp only [enter, Run.run_bind, Run.run_state] at henter
  cases hat : state.cursor.atLogEntry index with
  | error error =>
      rw [hat] at henter
      cases henter
  | ok next =>
      obtain ⟨entry, hentry⟩ := Cursor.exists_logEntry hat
      simp only [hat, Run.run_ofExcept_ok, Run.setCursor, Run.run_modify, hentry] at henter
      obtain ⟨hdecode, _⟩ := Run.of_ofExcept_ok henter
      exact EventDecl.map_fst_of_decode_ok hdecode

/-- A log entry that cannot be decoded injects nothing. -/
theorem of_enter_failed {error : Error}
    (henter : (enter event index).run settings state = .failed error after)
    (body : Run σ Unit) :
    (visit event body index).run settings state = .failed error after ∧
      ∃ cursor, after = { state with cursor } := by
  have hends : (enter event index).Sustains settings (fun last => ∃ cursor,
      last = { state with cursor }) (fun _ => True) fun _ => False := by
    refine Run.sustains_enter ?_ event index
    rintro _ cursor ⟨_, rfl⟩
    exact ⟨cursor, rfl⟩
  have hfailed := hends state ⟨state.cursor, rfl⟩
  rw [henter] at hfailed
  exact ⟨by rw [visit, Run.run_bind, henter], hfailed.1⟩

end LogEntryFilter

namespace Instruction

variable {χ : Type}

mutual

theorem rangeFree_of_fitsAt : ∀ (instruction : Instruction χ) {scope : Scope},
    instruction.FitsAt (some scope) → instruction.RangeFree
  | .blocks _ _ _, _, ⟨hplace, _⟩ => by cases hplace
  | .transactions _ _ body, _, ⟨_, hbody⟩ | .logEntries _ _ body, _, ⟨_, hbody⟩
  | .when _ body, _, hbody | .contract _ _ body, _, ⟨_, hbody⟩ =>
      rangeFreeAll_of_fitsAllAt body hbody
  | .assign _ _, _, _ | .call _ _ _, _, _ | .exportRow _ _, _, _ | .exportLine _, _, _
  | .exportEvent _ _ _, _, _ | .further _, _, _ => trivial

/-- No blocks are visited within a block. -/
theorem rangeFreeAll_of_fitsAllAt : ∀ (instructions : List (Instruction χ)) {scope : Scope},
    FitsAllAt (some scope) instructions → RangeFreeAll instructions
  | [], _, _ => trivial
  | instruction :: rest, _, ⟨hfirst, hrest⟩ =>
    ⟨rangeFree_of_fitsAt instruction hfirst, rangeFreeAll_of_fitsAllAt rest hrest⟩

end

/-- What starts in a run of the code removes only what filters in the code inject. -/
theorem Removed.mem_injectsAll {code : List (Instruction Empty)} {state : RunState σ}
    {name : String} (hremoved : Removed settings code state name) : name ∈ injectsAll code := by
  obtain ⟨items, nested, here, hstarts, hname⟩ := hremoved
  induction hstarts with
  | @first instruction rest state =>
      refine List.mem_append_left _ ?_
      cases instruction with
      | contract => exact List.mem_append_left _ hname
      | _ => cases hname
  | later _ _ ih => exact List.mem_append_right _ (ih hname)
  | @visit instruction _ _ _ _ _ _ _ _ _ ih | @body instruction _ _ _ _ _ _ _ _ _ ih =>
      refine List.mem_append_left _ ?_
      rw [injects_eq]
      exact List.mem_append_right _ (ih hname)

/-- The variables that are removed by an instruction that starts in the body for the log entry at a
position. -/
def RemovedInVisit (settings : Settings σ) (event : EventDecl) (index : Nat)
    (body : List (Instruction Empty)) (state : RunState σ) (name : String) : Prop :=
  ∃ begun, (do
      let decoded ← LogEntryFilter.enter event index
      decoded.forM fun (name, value) => Run.assign name value).run settings state = .ok () begun ∧
    Removed settings body begun name

/-- A contract filter within a block removes what it injects, however it ends, and spares the
rest. -/
theorem confines_execute_contract {address : Operand} {reads : List MemberRead}
    {body : List (Instruction Empty)} (hfree : RangeFreeAll body) (state : RunState σ) :
    ((execute Empty.elim (.contract address reads body)).run settings state).Confines
      (reads.flatMap MemberRead.names)
      (Removed settings [.contract address reads body] state) state := by
  rw [run_around_sparing (spares_executeAll body hfree) fun _ h => h]
  refine Run.confines_contract (Run.spares_sparing _) address (fun name hname => ?_) state
  exact ⟨[], _, state, .first, hname⟩

/-- The visit of a log entry removes what it injects, however it ends, and spares the rest. -/
theorem confines_visit_logEntry {event : EventDecl} {body : List (Instruction Empty)}
    (hfree : RangeFreeAll body) (index : Nat) (state : RunState σ) :
    ∃ injected,
      ((LogEntryFilter.visit event (executeAll Empty.elim body) index).run settings state).Confines
        injected (RemovedInVisit settings event index body state) state ∧
      (injected = event.parameters.map (·.name) ∨ injected = [] ∧ ∃ error after,
        (LogEntryFilter.enter event index).run settings state = .failed error after ∧
        after.store = state.store) := by
  cases henter : (LogEntryFilter.enter event index).run settings state with
  | failed error after =>
      obtain ⟨hvisit, cursor, rfl⟩ :=
        LogEntryFilter.of_enter_failed henter (executeAll Empty.elim body)
      refine ⟨[], ?_, .inr ⟨rfl, error, _, rfl, rfl⟩⟩
      rw [hvisit]
      exact ⟨(RunState.Spares.refl state).of_store (List.suffix_refl _) rfl, by simp⟩
  | ok decoded entered =>
      refine ⟨_, ?_, .inl rfl⟩
      have hspares (begun : RunState σ) (hset : (do
          let decoded ← LogEntryFilter.enter event index
          decoded.forM fun (name, value) => Run.assign name value).run settings state =
            .ok () begun) :
          ((executeAll Empty.elim body).run settings begun).Spares
            (RemovedInVisit settings event index body state) begun :=
        spares_executeAll body hfree begun fun _ hname => ⟨begun, hset, hname⟩
      rw [LogEntryFilter.run_visit_congr fun begun hset =>
          (Run.run_sparing (hspares begun hset)).symm,
        ← LogEntryFilter.map_fst_of_enter_ok henter]
      exact Run.confines_visit_of_enter (Run.spares_sparing _) henter
  | unfinished =>
      have hends : (LogEntryFilter.enter event index).Sustains settings (fun _ => True)
          (fun _ => True) fun _ => False := Run.sustains_enter (fun _ _ h => h) event index
      have hnever := hends state trivial
      rw [henter] at hnever
      exact hnever.elim

end Instruction

namespace Plan

/-- The compilation of some instructions, at a place and with names, comes to an instruction, at
the place and with the names that are found there. -/
inductive Instruction.CompiledIn (library : Library) (instruction : Instruction)
    (place : Option Scope) (names : Names) : Option Scope → Names → List Instruction → Prop
  | first {rest : List Instruction} :
      CompiledIn library instruction place names place names (instruction :: rest)
  | later {around : Option Scope} {outer next : Names} {earlier : Instruction}
      {rest : List Instruction} {compiled : ChainExtract.Instruction Empty}
      (hcompile : (earlier.compile library around).run outer = .ok (compiled, next))
      (hrest : CompiledIn library instruction place names around next rest) :
      CompiledIn library instruction place names around outer (earlier :: rest)
  | body {around : Option Scope} {outer opened : Names} {enclosing : Instruction}
      {rest : List Instruction}
      (hopening : (enclosing.opening library around).run outer = .ok ((), opened))
      (hbody : CompiledIn library instruction place names (enclosing.bodyPlace around) opened
        enclosing.body) :
      CompiledIn library instruction place names around outer (enclosing :: rest)

variable {library : Library} {place around : Option Scope} {names outer : Names}
variable {instruction : Instruction}

theorem Instruction.CompiledIn.compiles {instructions : List Instruction}
    (hin : instruction.CompiledIn library place names around outer instructions)
    (hplain : Plain (Instruction.declaresAll instructions)) (hsound : outer.Sound)
    (hcompile : ∃ code last,
      (Instruction.compileAll library around instructions).run outer = .ok (code, last)) :
    Plain instruction.declares ∧ names.Sound ∧
      ∃ compiled after, (instruction.compile library place).run names = .ok (compiled, after) := by
  induction hin with
  | first =>
      obtain ⟨code, last, hcode⟩ := hcompile
      obtain ⟨compiled, after, _, hcompiled, _⟩ := Instruction.of_compileAll_cons_ok hcode
      exact ⟨(plain_append.mp hplain).1, hsound, compiled, after, hcompiled⟩
  | @later around outer next earlier rest compiled hearlier _ ih =>
      obtain ⟨code, last, hcode⟩ := hcompile
      rw [Instruction.compileAll, Compiler.run_bind_of_ok hearlier] at hcode
      obtain ⟨others, final, hothers, _⟩ := Compiler.of_bind_ok hcode
      obtain ⟨hearlierNames, hrestNames⟩ := plain_append.mp hplain
      have hnext : outer.Grows next := Instruction.keeps_compile library
        (Names.closed_grows hearlierNames outer) earlier around (List.Subset.refl _) outer compiled
        next hsound.grows hearlier
      exact ih hrestNames hnext.sound ⟨others, final, hothers⟩
  | @body around outer opened enclosing rest hopening hbody ih =>
      obtain ⟨code, last, hcode⟩ := hcompile
      obtain ⟨compiled, after, _, hcompiled, _⟩ := Instruction.of_compileAll_cons_ok hcode
      have hnests : enclosing.Nests := by
        cases enclosing <;> trivial
      obtain ⟨_, inner, hopening', hinner, _⟩ := Instruction.opening_of_compile hnests hcompiled
      cases hopening.symm.trans hopening'
      have hnames := (plain_append.mp hplain).1
      have hopened : outer.Grows opened := Instruction.keeps_opening
        (Names.closed_grows hnames outer) library around enclosing (List.Subset.refl _) outer ()
        opened hsound.grows hopening
      exact ih (hnames.subset enclosing.declaresAll_body) hopened.sound ⟨_, inner, hinner⟩

/-- Each contract filter and each filter of log entries in a plan that compiles removes what it
injects, for one item in the case of log entries, however that ends and in whatever state it has
begun: nothing is injected by a log entry that cannot be decoded. Variables that neither are
assigned nor are removed by a contract filter that starts in its run it leaves alone, and what
is declared outside of it is neither injected nor removed by it or by those nested in it. -/
theorem Instruction.confines_of_compile {plan : Plan} {program : Program Empty}
    (hplan : plan.compile library = .ok program) (hplain : Plain plan.declares)
    (hin : instruction.CompiledIn library place names none {} plan.instructions)
    (settings : Settings σ) :
    ∃ compiled after, (instruction.compile library place).run names = .ok (compiled, after) ∧
      (∀ address reads body, compiled = .contract address reads body → ∀ state,
        ((compiled.execute Empty.elim).run settings state).Confines (reads.flatMap MemberRead.names)
          (ChainExtract.Instruction.Removed settings [compiled] state) state) ∧
      (∀ event emitters body, compiled = .logEntries event emitters body → ∀ index state,
        ∃ injected,
          ((LogEntryFilter.visit event (ChainExtract.Instruction.executeAll Empty.elim body)
            index).run settings state).Confines injected
              (ChainExtract.Instruction.RemovedInVisit settings event index body state) state ∧
          (injected = event.parameters.map (·.name) ∨ injected = [] ∧ ∃ error after,
            (LogEntryFilter.enter event index).run settings state = .failed error after ∧
            after.store = state.store)) ∧
      ∀ name, names.Issued name ∨ ¬ after.Issued name →
        name ∉ compiled.injects ∧
        (∀ state, ¬ ChainExtract.Instruction.Removed settings [compiled] state name) ∧
        ∀ event index state, ¬ ChainExtract.Instruction.RemovedInVisit settings event index
          compiled.body state name := by
  obtain ⟨hnames, hsound, compiled, after, hcompile⟩ :=
    hin.compiles hplain Names.sound_empty ⟨program, exists_run_of_compile hplan⟩
  have hfits := Instruction.fitsAt_of_compile instruction hcompile
  refine ⟨compiled, after, hcompile, ?_, ?_, fun name hname => ?_⟩
  · rintro address reads body rfl state
    obtain ⟨hplace, hbody⟩ := hfits
    obtain ⟨scope, rfl⟩ := Option.ne_none_iff_exists'.mp hplace
    exact ChainExtract.Instruction.confines_execute_contract
      (ChainExtract.Instruction.rangeFreeAll_of_fitsAllAt body hbody) state
  · rintro event emitters body rfl index state
    exact ChainExtract.Instruction.confines_visit_logEntry
      (ChainExtract.Instruction.rangeFreeAll_of_fitsAllAt body hfits.2) index state
  · have hfresh := Instruction.fresh_injects instruction hnames hsound hcompile
    -- injected names are issued by the compilation of the filter, neither before nor behind it
    have hinjects : name ∉ compiled.injects := by
      intro hmem
      exact hname.elim (hfresh name hmem).1 fun hafter => hafter (hfresh name hmem).2
    refine ⟨hinjects, fun state hremoved => hinjects ?_, ?_⟩
    · simpa [ChainExtract.Instruction.injectsAll] using hremoved.mem_injectsAll
    · rintro event index state ⟨begun, _, hremoved⟩
      refine hinjects ?_
      rw [ChainExtract.Instruction.injects_eq]
      exact List.mem_append_right _ hremoved.mem_injectsAll

/-- A question to a contract whose answer takes a name that is declared twice around it. -/
def askingPaused : Instruction :=
  .contract (.address (.zero 20)) [⟨"paused", [], [⟨"x", "bool"⟩]⟩] [.exportLine [.stored "x"]]

def notingPaused : Instruction := .logEntries "Paused" [⟨"x", "bool", false⟩] none [askingPaused]

/-- A plan in which a variable, a parameter of an event and an answer have the same name. -/
def pausingPlan : Plan where
  outputs := []
  instructions :=
    [.assign "x" (.literal (.scalar (.integer 1))),
      .blocks (.literal (.scalar (.integer 1))) none [.transactions none none [notingPaused]]]

/-- The names where the log entries are filtered. -/
def notingNames : Names where
  frames := [[], [], [("x", ⟨"x", .int⟩)]]
  counts := [("x", 1)]

/-- The names where the contract is asked. -/
def askingNames : Names where
  frames := [[("x", ⟨Names.storageName "x" 1, .bool⟩)], [], [], [("x", ⟨"x", .int⟩)]]
  counts := [("x", 2)]

/-- What the question to the contract is compiled to. -/
def askedPaused : ChainExtract.Instruction Empty :=
  .contract (.literal (.addr (.zero 20))) [⟨"paused", [], [(Names.storageName "x" 2, "bool")]⟩]
    [.exportLine [.stored (Names.storageName "x" 2)]]

def notedPaused : ChainExtract.Instruction Empty :=
  .logEntries ⟨"Paused", [⟨Names.storageName "x" 1, "bool", false, .bool⟩]⟩ none [askedPaused]

open ChainExtract.Instruction in
/-- The variable that is assigned first outlasts the log entries and the questions to the contract,
which inject variables of its name under other names. -/
theorem Instruction.confines_of_compile_pausing :
    (∃ program, pausingPlan.compile .empty = .ok program) ∧ Plain pausingPlan.declares ∧
      (notingPaused.CompiledIn .empty (some .transaction) notingNames none {}
          pausingPlan.instructions ∧
        notingNames.Issued "x" ∧
        notedPaused.injects = [Names.storageName "x" 1, Names.storageName "x" 2] ∧
        ∀ event index state,
          ¬ RemovedInVisit payingSettings event index [askedPaused] state "x") ∧
      askingPaused.CompiledIn .empty (some .logEntry) askingNames none {}
          pausingPlan.instructions ∧
        ∀ state, ((askedPaused.execute Empty.elim).run payingSettings state).Confines
          [Names.storageName "x" 2] (Removed payingSettings [askedPaused] state) state := by
  obtain ⟨program, hplan⟩ : ∃ program, pausingPlan.compile .empty = .ok program := ⟨_, rfl⟩
  have hplain : Plain pausingPlan.declares := by
    have hdeclares : pausingPlan.declares = ["x", "x", "x"] := rfl
    simp [hdeclares, Plain]
  have hnoting : notingPaused.CompiledIn .empty (some .transaction) notingNames none {}
      pausingPlan.instructions := .later rfl (.body rfl (.body rfl .first))
  have hasking : askingPaused.CompiledIn .empty (some .logEntry) askingNames none {}
      pausingPlan.instructions := .later rfl (.body rfl (.body rfl (.body rfl .first)))
  have hissued : notingNames.Issued "x" := ⟨"x", 0, by simp, rfl, Nat.one_pos⟩
  refine ⟨⟨program, hplan⟩, hplain, ⟨hnoting, hissued, rfl, ?_⟩, hasking, ?_⟩
  · obtain ⟨compiled, after, hcompile, _, _, houtside⟩ :=
      Instruction.confines_of_compile hplan hplain hnoting payingSettings
    have hnoted : (notingPaused.compile .empty (some .transaction)).run notingNames =
        .ok (notedPaused, _) := rfl
    cases hnoted.symm.trans hcompile
    exact (houtside "x" (.inl hissued)).2.2
  · obtain ⟨compiled, after, hcompile, hcontract, _, _⟩ :=
      Instruction.confines_of_compile hplan hplain hasking payingSettings
    have hasked : (askingPaused.compile .empty (some .logEntry)).run askingNames =
        .ok (askedPaused, _) := rfl
    cases hasked.symm.trans hcompile
    exact hcontract _ _ _ rfl

end Plan

end ChainExtract
