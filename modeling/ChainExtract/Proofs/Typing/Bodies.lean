import ChainExtract.Proofs.Scoping.Compilation
import ChainExtract.Proofs.Typing.Frames
import ChainExtract.Proofs.Typing.Points

/-! # Typed stores

A store is typed for names if it agrees with typed frames. What does the same in the store
as in the frames, and keeps the frames typed there, keeps the store typed. Each time that an
instruction begins its body, the store is typed for the names of the body.
-/

namespace ChainExtract

variable {σ α β : Type} {settings : Settings σ}

/-- The frames are related to the store, and typed. -/
def Typing (F : Store → Frames → Prop) (store : Store) (frames : Frames) : Prop :=
  F store frames ∧ frames.Typed

/-- The visible variables are stored with values of their types. -/
def Names.Typed (names : Names) (store : Store) : Prop :=
  ∃ frames, Typing (Holding names []) store frames

theorem Names.Typed.find?_some {names : Names} {store : Store} (htyped : names.Typed store)
    {name : String} {declared : Declared} (hfind : names.find? name = some declared) :
    ∃ value, store.get? declared.storage = some value ∧ value.Conforms declared.type := by
  obtain ⟨frames, hholding, hframes⟩ := htyped
  obtain ⟨value, hframe, hstored⟩ := hholding.framed.find?_some hfind
  exact ⟨value, hstored, hframes.find? hframe⟩

theorem Names.Typed.enter {names : Names} {store : Store} (htyped : names.Typed store) :
    names.enter.Typed store := by
  obtain ⟨frames, hholding, hframes⟩ := htyped
  exact ⟨[] :: frames, ⟨hholding.framed.enter, by simp⟩, hframes.enter⟩

theorem Names.typed_empty (store : Store) : ({} : Names).Typed store :=
  ⟨[[]], ⟨.cons (frameAgrees_nil store) .nil, by simp⟩,
    Frames.Typed.enter fun _ hframe => by cases hframe⟩

namespace Run

variable {F G H : Store → Frames → Prop} {Q : α → β → Prop} {R : β → Prop}
variable {x : Run σ α} {y : Run (Scoped σ) β} {names after : Names}

theorem Simulates.typing (hxy : x.Simulates settings F G H Q y) (hy : y.Types settings R) :
    x.Simulates settings (Typing F) (Typing G) (Typing H) (fun a b => Q a b ∧ R b) y := by
  intro state framed hrelated
  have hends := hxy state framed ⟨hrelated.view, hrelated.agree.1⟩
  have hframes := hy framed hrelated.agree.2
  generalize x.run settings state = first at hends ⊢
  generalize y.run settings.scoped framed = second at hends hframes ⊢
  cases hends with
  | ok hresult hafter => exact .ok ⟨hresult, hframes.2⟩ ⟨hafter.view, hafter.agree, hframes.1⟩
  | failed error hafter => exact .failed error ⟨hafter.view, hafter.agree, hframes.1⟩
  | unfinished hview => exact .unfinished hview

/-- A run that has ended with a result has done so in the frames too. -/
theorem Simulates.of_ok (hxy : x.Simulates settings F G H Q y) {state final : RunState σ}
    {frames : Frames} {result : α} (hframes : F state.store frames)
    (hrun : x.run settings state = .ok result final) :
    ∃ other after, Q result other ∧ G final.store after := by
  have hends := hxy state { state.scoped with chain := ⟨state.chain, frames⟩ }
    ⟨⟨rfl, rfl, rfl, rfl, rfl, rfl⟩, hframes⟩
  rw [hrun] at hends
  generalize y.run _ _ = second at hends
  cases hends with
  | ok hresult hafter => exact ⟨_, _, hresult, hafter.agree⟩

theorem Simulates.typed_of_ok
    (hxy : x.Simulates settings (Holding names []) (Holding after []) H Q y)
    (hy : y.Types settings R) {state final : RunState σ} {result : α}
    (htyped : names.Typed state.store) (hrun : x.run settings state = .ok result final) :
    after.Typed final.store ∧ ∃ other, Q result other ∧ R other := by
  obtain ⟨frames, hframes⟩ := htyped
  obtain ⟨other, final, hresult, hfinal⟩ := (hxy.typing hy).of_ok hframes hrun
  exact ⟨⟨final, hfinal⟩, other, hresult⟩

/-- What keeps every relation of the store to frames keeps the store typed. -/
theorem Steady.typed_of_ok (hxy : x.Steady settings (Typing (Holding names [])) Q y)
    {state final : RunState σ} {result : α} (htyped : names.Typed state.store)
    (hrun : x.run settings state = .ok result final) : names.Typed final.store := by
  obtain ⟨frames, hframes⟩ := htyped
  obtain ⟨_, after, _, hafter⟩ := hxy.of_ok hframes hrun
  exact ⟨after, hafter⟩

end Run

section

variable {Q : α → β → Prop} {R : β → Prop} {x : Run σ α} {y : Run (Scoped σ) β}
variable {names after inner : Names} {body : Run σ Unit} {framedBody : Run (Scoped σ) Unit}

theorem Evaluates.typed_of_ok (hxy : Evaluates settings names after Q x y)
    (hy : y.Types settings R) {state final : RunState σ} {result : α}
    (htyped : names.Typed state.store) (hrun : x.run settings state = .ok result final) :
    after.Typed final.store ∧ ∃ other, Q result other ∧ R other :=
  (hxy.simulates [] (by simp)).typed_of_ok hy htyped hrun

theorem Evaluates.steady_typing (hsound : names.Sound)
    (hbody : Evaluates settings names.enter inner Eq body framedBody)
    (htypes : framedBody.Types settings fun _ => True) :
    body.Steady settings (Typing (Holding names [])) Eq (Run.within [] framedBody) := by
  have hwithin : (Run.within [] framedBody).Types settings fun _ => True :=
    Run.types_within (by simp) htypes
  exact ((hbody.steady_within hsound (by simp)).typing hwithin).imp fun _ _ h => h.1

/-- A range keeps the store typed from turn to turn. -/
theorem BlockRange.Reaches.typed
    (hbody : body.Steady settings (Typing (Holding names [])) Eq framedBody) {first next : Int}
    {last : Option Int} {window : Window} {start state : RunState σ}
    (hreaches : Reaches body first last settings start window next state)
    (htyped : names.Typed start.store) : names.Typed state.store := by
  induction hreaches with
  | start => exact htyped
  | turn _ _ hturn ih => exact (steady_turn hbody _ _).typed_of_ok ih hturn

end

/-- Pinned variables become the first ones of a frame that is entered. -/
theorem simulates_enter {names : Names} {vars : List (String × ValueType)} {values : List Value}
    (hlength : values.length = vars.length) {H : Store → Frames → Prop} :
    (pure () : Run σ Unit).Simulates settings
      (Holding names ([] ++ (names.enter.declareAll vars).1.zip values))
      (Holding (names.enter.declareAll vars).2 []) H Eq
      (Run.modifyFrames fun frames => Frames.declareAll ([] :: frames) (Binding.zip vars values)) :=
  fun _ _ hrelated => .ok rfl
    ⟨{ hrelated.view with chain := hrelated.view.chain }, hrelated.agree.declareAll hlength⟩

namespace Plan

variable {library : Library} {names first second inner : Names} {state begun : RunState σ}
variable {code : List (ChainExtract.Instruction Empty)} {framedBody : Run (Scoped σ) Unit}

theorem typed_of_begins_blocks (hlibrary : library.Sound) {lower : ChainExtract.Operand}
    {lower' : Operand} {upper : Option ChainExtract.Operand} {upper' : Option Operand}
    (hlower : Evaluates settings names first (fun value result => result.1 = value) lower.evaluate
      (lower'.interpret library))
    (hupper : Evaluates settings first second Eq (ChainExtract.Operand.evaluate? upper)
      (Operand.interpret? library upper'))
    (hbody : Evaluates settings second.enter inner Eq
      (ChainExtract.Instruction.executeAll Empty.elim code) framedBody)
    (htypes : framedBody.Types settings fun _ => True) (htyped : names.Typed state.store)
    (hbegins : (ChainExtract.Instruction.blocks lower upper code).Begins settings state begun) :
    second.enter.Typed begun.store := by
  cases hbegins with
  | blocks hfirst _ hlast _ hreaches _ hfetch =>
      have hsecond := (hlower.typed_of_ok (Operand.types_interpret hlibrary lower') htyped hfirst).1
      have hthird := (hupper.typed_of_ok (Operand.types_interpret? hlibrary upper') hsecond hlast).1
      have hturning := hreaches.typed (hbody.steady_typing hupper.advances.sound htypes) hthird
      have hfetched := (BlockRange.steady_fetch _ _).typed_of_ok hturning hfetch
      exact hfetched.enter

theorem typed_of_begins_transactions (hlibrary : library.Sound)
    {senders recipients : Option ChainExtract.Operand} {senders' recipients' : Option Operand}
    (hfrom : Evaluates settings names first Eq (evaluateAddresses "transaction senders" senders)
      (Operand.interpretAddresses library "transaction senders" senders'))
    (hto : Evaluates settings first second Eq
      (evaluateAddresses "transaction recipients" recipients)
      (Operand.interpretAddresses library "transaction recipients" recipients'))
    (hbody : Evaluates settings second.enter inner Eq
      (ChainExtract.Instruction.executeAll Empty.elim code) framedBody)
    (htypes : framedBody.Types settings fun _ => True) (htyped : names.Typed state.store)
    (hbegins : (ChainExtract.Instruction.transactions senders recipients code).Begins settings
      state begun) : second.enter.Typed begun.store := by
  cases hbegins with
  | transactions hsenders hrecipients _ _ hearlier _ =>
      have hsecond := (hfrom.typed_of_ok
        (Operand.types_interpretAddresses hlibrary _ senders') htyped hsenders).1
      have hthird := (hto.typed_of_ok
        (Operand.types_interpretAddresses hlibrary _ recipients') hsecond hrecipients).1
      have hsteady := hbody.steady_typing hto.advances.sound htypes
      have hvisited := (TransactionFilter.steady_visitAll hsteady _).typed_of_ok hthird hearlier
      exact hvisited.enter

variable (settings) in
/-- The parameters of a log entry are set before the body, and become the first variables of
its frame. -/
theorem simulates_parameters {event stored : EventDecl} (hsound : names.Sound)
    (hvars : ∀ var ∈ eventVars event, '#' ∉ var.1.toList) (hshape : event.SameShape stored)
    (hstored : stored.parameters.map (·.name) = (names.enter.declareAll (eventVars event)).1)
    (index : Nat) :
    (do
      let decoded ← LogEntryFilter.enter stored index
      decoded.forM fun (name, value) => Run.assign name value : Run σ Unit).Simulates settings
        (Holding names []) (Holding (names.enter.declareAll (eventVars event)).2 [])
        (fun _ _ => True) Eq (do
          let decoded ← LogEntryFilter.enter event index
          Run.modifyFrames fun frames => Frames.declareAll ([] :: frames)
            (Binding.zip (eventVars event) (decoded.map (·.2)))) := by
  have hset := LogEntryFilter.simulates_set settings hsound hvars hshape hstored
    (by simp) (fun _ _ _ => trivial) (f := fun _ => pure ())
    (g := fun values => Run.modifyFrames fun frames =>
      Frames.declareAll ([] :: frames) (Binding.zip (eventVars event) values))
    (fun values hlength => simulates_enter hlength) index
  simpa using hset

theorem typed_of_begins_logEntries (hlibrary : library.Sound)
    {emitters : Option ChainExtract.Operand} {emitters' : Option Operand} {event stored : EventDecl}
    (hemitting : Evaluates settings names first Eq
      (evaluateAddresses "log entry addresses" emitters)
      (Operand.interpretAddresses library "log entry addresses" emitters'))
    (hvars : ∀ var ∈ eventVars event, '#' ∉ var.1.toList) (hshape : event.SameShape stored)
    (hstored : stored.parameters.map (·.name) = (first.enter.declareAll (eventVars event)).1)
    (hbody : Evaluates settings (first.enter.declareAll (eventVars event)).2 inner Eq
      (ChainExtract.Instruction.executeAll Empty.elim code) framedBody)
    (htypes : framedBody.Types settings fun _ => True) (htyped : names.Typed state.store)
    (hbegins : (ChainExtract.Instruction.logEntries stored emitters code).Begins settings
      state begun) : (first.enter.declareAll (eventVars event)).2.Typed begun.store := by
  have hsound := hemitting.advances.sound
  cases hbegins with
  | logEntries hemitters _ _ hearlier hset =>
      have hsecond := (hemitting.typed_of_ok
        (Operand.types_interpretAddresses hlibrary _ emitters') htyped hemitters).1
      have hvisit (index : Nat) :
          (LogEntryFilter.visit stored (ChainExtract.Instruction.executeAll Empty.elim code)
            index).Steady settings (Typing (Holding first [])) Eq
              (Parameter.visit event framedBody index) :=
        ((LogEntryFilter.steady_visit hsound hvars hshape hstored hbody (by simp) index).typing
          (Parameter.types_visit event htypes index)).imp fun _ _ h => h.1
      have hvisited := (LogEntryFilter.steady_visitEach hvisit _ _).typed_of_ok hsecond hearlier
      have hparameters := simulates_parameters settings hsound hvars hshape hstored
      refine ((hparameters _).typed_of_ok (R := fun _ => True) ?_ hvisited hset).1
      apply (LogEntryFilter.types_enter event _).bind
      intro decoded hdecoded
      exact Run.types_enter (typed_zip_eventVars hdecoded)

theorem typed_of_begins_when (hlibrary : library.Sound) {condition : ChainExtract.Operand}
    {condition' : Operand}
    (hcondition : Evaluates settings names first (fun value result => result.1 = value)
      condition.evaluate (condition'.interpret library))
    (htyped : names.Typed state.store)
    (hbegins : (ChainExtract.Instruction.when condition code).Begins settings state begun) :
    first.enter.Typed begun.store := by
  cases hbegins with
  | «when» hrun =>
      exact (hcondition.typed_of_ok (Operand.types_interpret hlibrary condition') htyped
        hrun).1.enter

/-- Questions are asked and answered, and a frame is entered that begins with what was returned. -/
theorem MemberQuery.simulates_opening {place : Option Scope} {address : Operand}
    {contract : ChainExtract.Operand} {queries : List MemberQuery}
    {inputs : List (List ChainExtract.Operand)} {reads : List MemberRead} {declared : Names}
    (haddress : Evaluates settings names first (fun value result => result.1 = value)
      contract.evaluate (address.interpret library))
    (hcompiled : Compiled library place queries inputs reads first second second.enter declared) :
    (do
      let target ← ContractFilter.target (← contract.evaluate)
      reads.forM (ContractFilter.read target) : Run σ Unit).Simulates settings (Holding names [])
        (Holding declared []) (Left names []) Eq (do
          let target ← ContractFilter.target (← address.interpret library).1
          let bindings ← MemberQuery.interpretAll library target queries
          Run.modifyFrames fun frames => Frames.declareAll ([] :: frames) bindings) := by
  have hasks : (do
      let target ← ContractFilter.target (← contract.evaluate)
      reads.forM (ContractFilter.read target)
      pure () : Run σ Unit).Simulates settings (Holding names []) (Holding declared [])
        (Left names []) Eq (do
          let target ← ContractFilter.target (← address.interpret library).1
          let bindings ← MemberQuery.interpretAll library target queries
          Run.modifyFrames fun frames => Frames.declareAll ([] :: frames) bindings) := by
    refine MemberQuery.simulates_asks haddress hcompiled ⟨by simp, by simp⟩ ?_
    intro vars values hlength hsame
    rw [(Prod.mk.inj hsame).2]
    exact simulates_enter hlength
  simpa only [bind_pure_unit] using hasks

theorem typed_of_begins_contract {place : Option Scope} (hlibrary : library.Sound)
    (hclient : settings.client.Conforming) {address : Operand} {contract : ChainExtract.Operand}
    {queries : List MemberQuery} {inputs : List (List ChainExtract.Operand)}
    {reads : List MemberRead} {declared : Names}
    (haddress : Evaluates settings names first (fun value result => result.1 = value)
      contract.evaluate (address.interpret library))
    (hcompiled : MemberQuery.Compiled library place queries inputs reads first second second.enter
      declared)
    (htyped : names.Typed state.store)
    (hbegins : (ChainExtract.Instruction.contract contract reads code).Begins settings
      state begun) : declared.Typed begun.store := by
  have hopening := MemberQuery.simulates_opening haddress hcompiled
  cases hbegins with
  | contract hrun =>
      refine (hopening.typed_of_ok (R := fun _ => True) ?_ htyped hrun).1
      exact MemberQuery.types_asks hlibrary hclient address queries fun _ hbindings =>
        Run.types_enter hbindings

theorem MemberQuery.of_compileInputs_append_ok {place : Option Scope} {names after : Names}
    {earlier later : List MemberQuery} {inputs : List (List ChainExtract.Operand)}
    (hcompile : (compileInputs library place (earlier ++ later)).run names = .ok (inputs, after)) :
    ∃ asked rest middle, (compileInputs library place earlier).run names = .ok (asked, middle) ∧
      (compileInputs library place later).run middle = .ok (rest, after) ∧
      inputs = asked ++ rest ∧ asked.length = earlier.length := by
  induction earlier generalizing names inputs with
  | nil => exact ⟨[], inputs, names, rfl, hcompile, rfl, rfl⟩
  | cons query earlier ih =>
      obtain ⟨⟨operands, types⟩, next, hoperands, hlater⟩ := Compiler.of_bind_ok hcompile
      obtain ⟨others, last, hothers, hreturn⟩ := Compiler.of_bind_ok hlater
      obtain ⟨rfl, rfl⟩ := Compiler.of_pure_ok hreturn
      obtain ⟨asked, rest, middle, hasked, hrest, rfl, hlength⟩ := ih hothers
      refine ⟨operands :: asked, rest, middle, ?_, hrest, rfl, congrArg Nat.succ hlength⟩
      exact (Compiler.run_bind_of_ok hoperands).trans (Compiler.run_bind_of_ok hasked)

theorem MemberQuery.of_compileAll_append_ok {names after : Names}
    {earlier later : List MemberQuery} {asked rest : List (List ChainExtract.Operand)}
    (hlength : asked.length = earlier.length) {reads : List MemberRead}
    (hcompile : (compileAll (earlier ++ later) (asked ++ rest)).run names = .ok (reads, after)) :
    ∃ middle, (compileAll earlier asked).run names =
      .ok (reads.take earlier.length, middle) := by
  induction earlier generalizing names asked reads with
  | nil =>
      obtain rfl := List.eq_nil_of_length_eq_zero hlength
      exact ⟨names, rfl⟩
  | cons query earlier ih =>
      cases asked with
      | nil => cases hlength
      | cons operands asked =>
          obtain ⟨outputs, next, houtputs, hlater⟩ := Compiler.of_bind_ok hcompile
          obtain ⟨others, last, hothers, hreturn⟩ := Compiler.of_bind_ok hlater
          obtain ⟨rfl, rfl⟩ := Compiler.of_pure_ok hreturn
          obtain ⟨middle, hmiddle⟩ := ih (Nat.succ.inj hlength) hothers
          refine ⟨middle, ?_⟩
          exact (Compiler.run_bind_of_ok houtputs).trans (Compiler.run_bind_of_ok hmiddle)

/-- Some of the questions have been asked and answered, of which nothing is visible yet. -/
theorem typed_of_asked {place : Option Scope} (hlibrary : library.Sound)
    (hclient : settings.client.Conforming) {address : Operand} {contract : ChainExtract.Operand}
    {queries : List MemberQuery} {inputs : List (List ChainExtract.Operand)}
    {reads : List MemberRead} {start declared : Names}
    (haddress : Evaluates settings names first (fun value result => result.1 = value)
      contract.evaluate (address.interpret library))
    (hcompiled : MemberQuery.Compiled library place queries inputs reads first second start
      declared)
    (htyped : names.Typed state.store)
    (hrun : (do
      let target ← ContractFilter.target (← contract.evaluate)
      reads.forM (ContractFilter.read target) : Run σ Unit).run settings state = .ok () begun) :
    second.Typed begun.store := by
  have hasks : (do
      let target ← ContractFilter.target (← contract.evaluate)
      reads.forM (ContractFilter.read target)
      pure () : Run σ Unit).Simulates settings (Holding names []) (Holding second [])
        (Left names []) Eq (do
          let target ← ContractFilter.target (← address.interpret library).1
          let _ ← MemberQuery.interpretAll library target queries
          pure ()) := by
    refine MemberQuery.simulates_asks haddress hcompiled ⟨by simp, by simp⟩ ?_
    intro vars values hlength _ state framed hrelated
    exact .ok rfl ⟨hrelated.view, hrelated.agree.framed, by simp⟩
  simp only [bind_pure_unit] at hasks
  refine (hasks.typed_of_ok (R := fun _ => True) ?_ htyped hrun).1
  exact MemberQuery.types_asks hlibrary hclient address queries fun _ _ => Run.upholds_pure ()

end Plan

end ChainExtract
