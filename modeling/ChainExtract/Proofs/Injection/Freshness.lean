import ChainExtract.Proofs.Scoping.Declarations
import ChainExtract.Proofs.Typing.Adequacy
import ChainExtract.Proofs.Typing.Soundness

/-! # Fresh names of injected variables

The variables that a filter injects get storage names that no declaration has got before, and
those of the filters in its body come behind them. So what is declared outside of a filter is never
stored under a name that the filter or one of those in its body injects.
-/

namespace ChainExtract

namespace Names

/-- The second names are sound, and no storage name has been taken back. -/
structure Grows (names later : Names) : Prop where
  sound : later.Sound
  issued : ∀ storage, names.Issued storage → later.Issued storage

theorem Sound.grows {names : Names} (hsound : names.Sound) : names.Grows names :=
  ⟨hsound, fun _ hissued => hissued⟩

theorem Issued.declare {names : Names} {storage : String} (hissued : names.Issued storage)
    (name : String) (type : ValueType) : (names.declare name type).2.Issued storage := by
  obtain ⟨other, count, hplain, hstorage, hcount⟩ := hissued
  exact ⟨other, count, hplain, hstorage, hcount.trans_le (count_le_count_declare other)⟩

theorem Sound.leave {names : Names} (hsound : names.Sound) : names.leave.Sound where
  issued := fun frame hframe => hsound.issued frame (List.mem_of_mem_tail hframe)
  distinct := hsound.distinct.tail

/-- The compilation lets names grow that are declared without the mark. -/
theorem closed_grows {vars : List String} (hplain : Plain vars) (names : Names) :
    Closed vars names.Grows where
  declare := fun _ name type hname hgrows =>
    ⟨hgrows.sound.declare (hplain name hname), fun storage hissued =>
      (hgrows.issued storage hissued).declare name type⟩
  enter := fun _ hgrows => ⟨hgrows.sound.enter, hgrows.issued⟩
  leave := fun _ hgrows => ⟨hgrows.sound.leave, hgrows.issued⟩

end Names

namespace Instruction

/-- The names under which the filter itself stores the variables that it injects. -/
def injected : Instruction Empty → List String
  | .logEntries event _ _ => event.parameters.map (·.name)
  | .contract _ reads _ => reads.flatMap MemberRead.names
  | _ => []

mutual

/-- The names under which the instruction and those nested in it store what they inject. -/
def injects : Instruction Empty → List String
  | .logEntries event _ body => event.parameters.map (·.name) ++ injectsAll body
  | .contract _ reads body => reads.flatMap MemberRead.names ++ injectsAll body
  | .blocks _ _ body | .transactions _ _ body | .when _ body => injectsAll body
  | .assign _ _ | .call _ _ _ | .exportRow _ _ | .exportLine _ | .exportEvent _ _ _ | .further _ =>
    []

def injectsAll : List (Instruction Empty) → List String
  | [] => []
  | instruction :: rest => injects instruction ++ injectsAll rest

end

theorem injects_eq (instruction : Instruction Empty) :
    instruction.injects = instruction.injected ++ injectsAll instruction.body := by
  cases instruction with
  | further instruction => exact instruction.elim
  | _ => rfl

end Instruction

namespace Plan

variable {library : Library} {place : Option Scope} {names after opened inner : Names}
variable {instruction : Instruction} {compiled : ChainExtract.Instruction Empty}

theorem Instruction.keeps_opening {vars : List String} {P : Names → Prop}
    (hclosed : Names.Closed vars P) (library : Library) (place : Option Scope)
    (instruction : Instruction) (hvars : instruction.declares ⊆ vars) :
    Compiler.Keeps P (instruction.opening library place) := by
  have henter : Compiler.Keeps P (modify Names.enter : Compiler Unit) := by
    rintro names _ _ hnames ⟨⟩
    exact hclosed.enter names hnames
  cases instruction with
  | blocks first last body =>
      rw [Instruction.declares, List.append_subset, List.append_subset] at hvars
      exact (Operand.keeps_compileTyped library place hclosed _ _ first hvars.1).bind fun _ =>
        (Operand.keeps_compile?
          (Operand.keeps_compileTyped library place hclosed _ _) hvars.2.1).bind fun _ => henter
  | transactions senders recipients body =>
      rw [Instruction.declares, List.append_subset, List.append_subset] at hvars
      have haddresses := Operand.keeps_compileAddresses library place hclosed
      exact (Operand.keeps_compile? (haddresses _) hvars.1).bind fun _ =>
        (Operand.keeps_compile? (haddresses _) hvars.2.1).bind fun _ => henter
  | logEntries event parameters emitters body =>
      rw [Instruction.declares, List.append_subset, List.append_subset] at hvars
      exact (Operand.keeps_compile?
        (Operand.keeps_compileAddresses library place hclosed _) hvars.1).bind fun _ =>
          henter.bind fun _ => (Parameter.keeps_compileAll hclosed hvars.2.1).bind fun _ =>
            Compiler.keeps_pure ()
  | «when» condition body =>
      rw [Instruction.declares, List.append_subset] at hvars
      exact (Operand.keeps_compileTyped library place hclosed _ _ condition hvars.1).bind fun _ =>
        henter
  | contract address queries body =>
      rw [Instruction.declares, List.append_subset, List.append_subset] at hvars
      exact (Operand.keeps_compileTyped library place hclosed _ _ address hvars.1).bind fun _ =>
        (MemberQuery.keeps_compileInputs library place hclosed hvars.2.1).bind fun inputs =>
          henter.bind fun _ => (MemberQuery.keeps_compileAll hclosed hvars.2.1 inputs).bind fun _ =>
            Compiler.keeps_pure ()
  | assign | call | exportRow | exportLine | exportEvent => exact Compiler.keeps_pure ()

/-- What compiles has a body that compiles behind the opening, and is left behind the body. -/
theorem Instruction.opening_of_compile (hnests : instruction.Nests)
    (hcompile : (instruction.compile library place).run names = .ok (compiled, after)) :
    ∃ opened inner, (instruction.opening library place).run names = .ok ((), opened) ∧
      (Instruction.compileAll library (instruction.bodyPlace place) instruction.body).run opened =
        .ok (compiled.body, inner) ∧ after = inner.leave := by
  cases instruction with
  | blocks first last body =>
      obtain ⟨lower, upper, code, second, third, inner, hlower, hupper, hcode, rfl, rfl⟩ :=
        Instruction.of_compile_blocks_ok hcompile
      refine ⟨third.enter, inner, ?_, hcode, rfl⟩
      rw [Instruction.opening, Compiler.run_bind_of_ok hlower, Compiler.run_bind_of_ok hupper]
      rfl
  | transactions senders recipients body =>
      obtain ⟨senders?, recipients?, code, second, third, inner, hfrom, hto, hcode, rfl, rfl⟩ :=
        Instruction.of_compile_transactions_ok hcompile
      refine ⟨third.enter, inner, ?_, hcode, rfl⟩
      rw [Instruction.opening, Compiler.run_bind_of_ok hfrom, Compiler.run_bind_of_ok hto]
      rfl
  | logEntries event parameters emitters body =>
      obtain ⟨emitters?, stored, code, second, third, inner, hfrom, hparameters, hcode, rfl, rfl⟩ :=
        Instruction.of_compile_logEntries_ok hcompile
      have hentered : (modify Names.enter : Compiler Unit).run second =
        .ok ((), second.enter) := rfl
      refine ⟨third, inner, ?_, hcode, rfl⟩
      rw [Instruction.opening, Compiler.run_bind_of_ok hfrom, Compiler.run_bind_of_ok hentered,
        Compiler.run_bind_of_ok hparameters]
      rfl
  | «when» condition body =>
      obtain ⟨test, code, second, inner, htest, hcode, rfl, rfl⟩ :=
        Instruction.of_compile_when_ok hcompile
      refine ⟨second.enter, inner, ?_, hcode, rfl⟩
      rw [Instruction.opening, Compiler.run_bind_of_ok htest]
      rfl
  | contract address queries body =>
      obtain ⟨target, inputs, reads, code, second, third, declared, inner, htarget, hinputs,
        hreads, hcode, rfl, rfl⟩ := Instruction.of_compile_contract_ok hcompile
      have hentered : (modify Names.enter : Compiler Unit).run third = .ok ((), third.enter) := rfl
      refine ⟨declared, inner, ?_, hcode, rfl⟩
      rw [Instruction.opening, Compiler.run_bind_of_ok htarget, Compiler.run_bind_of_ok hinputs,
        Compiler.run_bind_of_ok hentered, Compiler.run_bind_of_ok hreads]
      rfl
  | assign | call | exportRow | exportLine | exportEvent => exact hnests.elim

/-- The storage names have not been given before, and are given behind a compilation. -/
def Fresh (names after : Names) (storages : List String) : Prop :=
  ∀ storage ∈ storages, ¬ names.Issued storage ∧ after.Issued storage

theorem Fresh.nil : Fresh names after [] :=
  fun _ hnone => absurd hnone List.not_mem_nil

theorem Fresh.append {first second : List String} (hfirst : Fresh names after first)
    (hsecond : Fresh names after second) : Fresh names after (first ++ second) := by
  intro storage hstorage
  exact (List.mem_append.mp hstorage).elim (hfirst storage) (hsecond storage)

theorem Fresh.imp {before later : Names} {storages : List String}
    (hfresh : Fresh names after storages)
    (hbefore : ∀ storage, before.Issued storage → names.Issued storage)
    (hlater : ∀ storage, after.Issued storage → later.Issued storage) :
    Fresh before later storages :=
  fun storage hstorage =>
    ⟨fun hissued => (hfresh storage hstorage).1 (hbefore storage hissued),
      hlater storage (hfresh storage hstorage).2⟩

theorem Fresh.declareAll (hsound : names.Sound) {vars : List (String × ValueType)}
    (hplain : ∀ declared ∈ vars, '#' ∉ declared.1.toList) {storages : List String}
    (hpair : (storages, after) = names.declareAll vars) : Fresh names after storages := by
  obtain ⟨rfl, rfl⟩ := Prod.mk.inj hpair
  exact fun storage hstorage => hsound.declareAll_fresh hplain hstorage

/-- What a filter injects itself is fresh behind its opening. -/
theorem Instruction.fresh_injected (hplain : Plain instruction.declares) (hsound : names.Sound)
    (hnests : instruction.Nests)
    (hcompile : (instruction.compile library place).run names = .ok (compiled, after))
    (hopening : (instruction.opening library place).run names = .ok ((), opened)) :
    Fresh names opened compiled.injected := by
  cases instruction with
  | logEntries event parameters emitters body =>
      obtain ⟨emitters?, stored, code, second, third, inner, hfrom, hparameters, hcode, rfl, rfl⟩ :=
        Instruction.of_compile_logEntries_ok hcompile
      have hentered : (modify Names.enter : Compiler Unit).run second =
        .ok ((), second.enter) := rfl
      rw [Instruction.opening, Compiler.run_bind_of_ok hfrom, Compiler.run_bind_of_ok hentered,
        Compiler.run_bind_of_ok hparameters] at hopening
      cases hopening
      rw [Instruction.declares, plain_append, plain_append] at hplain
      obtain ⟨declared, _, hnames, _, hpair⟩ := Parameter.of_compileAll_ok hparameters
      have hsecond : names.Grows second := Operand.keeps_compile?
        (Operand.keeps_compileAddresses library place (Names.closed_grows hplain.1 names) _)
        (List.Subset.refl _) names _ second hsound.grows hfrom
      have hvars : ∀ var ∈ eventVars ⟨event, declared⟩, '#' ∉ var.1.toList :=
        plain_eventVars (hnames ▸ hplain.2.1)
      exact (Fresh.declareAll hsecond.sound.enter hvars hpair).imp hsecond.issued fun _ h => h
  | contract address queries body =>
      obtain ⟨target, inputs, reads, code, second, third, declared, inner, htarget, hinputs,
        hreads, hcode, rfl, rfl⟩ := Instruction.of_compile_contract_ok hcompile
      have hentered : (modify Names.enter : Compiler Unit).run third = .ok ((), third.enter) := rfl
      rw [Instruction.opening, Compiler.run_bind_of_ok htarget, Compiler.run_bind_of_ok hinputs,
        Compiler.run_bind_of_ok hentered, Compiler.run_bind_of_ok hreads] at hopening
      cases hopening
      rw [Instruction.declares, plain_append, plain_append] at hplain
      have hsecond : names.Grows second := Operand.keeps_compileTyped library place
        (Names.closed_grows hplain.1 names) _ _ address (List.Subset.refl _) names _ second
        hsound.grows htarget
      have hthird : names.Grows third := MemberQuery.keeps_compileInputs library place
        (Names.closed_grows hplain.2.1 names) (List.Subset.refl _) second _ third hsecond hinputs
      obtain ⟨vars, hvars, hpair⟩ := MemberQuery.of_compileAll_ok hplain.2.1 hreads
      exact (Fresh.declareAll hthird.sound.enter (plain_map_fst.mp hvars) hpair).imp hthird.issued
        fun _ h => h
  | blocks first last body =>
      obtain ⟨_, _, _, _, _, _, _, _, _, rfl, _⟩ := Instruction.of_compile_blocks_ok hcompile
      exact .nil
  | transactions senders recipients body =>
      obtain ⟨_, _, _, _, _, _, _, _, _, rfl, _⟩ := Instruction.of_compile_transactions_ok hcompile
      exact .nil
  | «when» condition body =>
      obtain ⟨_, _, _, _, _, _, rfl, _⟩ := Instruction.of_compile_when_ok hcompile
      exact .nil
  | assign | call | exportRow | exportLine | exportEvent => exact hnests.elim

theorem Instruction.declaresAll_body (instruction : Instruction) :
    Instruction.declaresAll instruction.body ⊆ instruction.declares := by
  cases instruction <;> simp [Instruction.body, Instruction.declares, Instruction.declaresAll]

/-- What is injected in the body is fresh behind the body, and all that is injected is fresh
behind the instruction. -/
theorem Instruction.fresh_of_body (hplain : Plain instruction.declares) (hsound : names.Sound)
    (hnests : instruction.Nests)
    (hcompile : (instruction.compile library place).run names = .ok (compiled, after))
    (hbody : ∀ {place : Option Scope} {names after : Names}
      {code : List (ChainExtract.Instruction Empty)},
      Plain (Instruction.declaresAll instruction.body) → names.Sound →
      (Instruction.compileAll library place instruction.body).run names = .ok (code, after) →
      Fresh names after (ChainExtract.Instruction.injectsAll code)) :
    Fresh names after compiled.injects := by
  obtain ⟨opened, inner, hopening, hcode, rfl⟩ := Instruction.opening_of_compile hnests hcompile
  have hbodyNames : Plain (Instruction.declaresAll instruction.body) :=
    hplain.subset instruction.declaresAll_body
  have hopened : names.Grows opened := Instruction.keeps_opening (Names.closed_grows hplain names)
    library place instruction (List.Subset.refl _) names () opened hsound.grows hopening
  have hinner : opened.Grows inner := Instruction.keeps_compileAll library
    (Names.closed_grows hbodyNames opened) _ _ (List.Subset.refl _) opened _ inner
    hopened.sound.grows hcode
  -- the filter injects before its body does, and no names are taken back behind either
  rw [ChainExtract.Instruction.injects_eq]
  exact .append ((Instruction.fresh_injected hplain hsound hnests hcompile hopening).imp
    (fun _ h => h) hinner.issued) ((hbody hbodyNames hopened.sound hcode).imp hopened.issued
      fun _ h => h)

mutual

/-- All that an instruction and those nested in it inject gets names that were not given before. -/
theorem Instruction.fresh_injects : ∀ (instruction : Instruction) {place : Option Scope}
    {names after : Names} {compiled : ChainExtract.Instruction Empty},
    Plain instruction.declares → names.Sound →
    (instruction.compile library place).run names = .ok (compiled, after) →
    Fresh names after compiled.injects
  | .blocks first last body, _, _, _, _, hplain, hsound, hcompile =>
    Instruction.fresh_of_body hplain hsound trivial hcompile (Instruction.fresh_injectsAll body)
  | .transactions senders recipients body, _, _, _, _, hplain, hsound, hcompile =>
    Instruction.fresh_of_body hplain hsound trivial hcompile (Instruction.fresh_injectsAll body)
  | .logEntries event parameters emitters body, _, _, _, _, hplain, hsound, hcompile =>
    Instruction.fresh_of_body hplain hsound trivial hcompile (Instruction.fresh_injectsAll body)
  | .when condition body, _, _, _, _, hplain, hsound, hcompile =>
    Instruction.fresh_of_body hplain hsound trivial hcompile (Instruction.fresh_injectsAll body)
  | .contract address queries body, _, _, _, _, hplain, hsound, hcompile =>
    Instruction.fresh_of_body hplain hsound trivial hcompile (Instruction.fresh_injectsAll body)
  | .assign target value, _, _, _, _, _, _, hcompile => by
      obtain ⟨_, _, _, _, rfl, _⟩ := Instruction.of_compile_assign_ok hcompile
      exact .nil
  | .call method arguments result, _, _, _, _, _, _, hcompile => by
      obtain ⟨_, _, _, _, _, _, _, rfl⟩ := Instruction.of_compile_call_ok hcompile
      exact .nil
  | .exportRow table columns, _, _, _, _, _, _, hcompile => by
      obtain ⟨_, _, rfl⟩ := Instruction.of_compile_exportRow_ok hcompile
      exact .nil
  | .exportLine parts, _, _, _, _, _, _, hcompile => by
      obtain ⟨_, _, _, rfl⟩ := Instruction.of_compile_exportLine_ok hcompile
      exact .nil
  | .exportEvent trace event attributes, _, _, _, _, _, _, hcompile => by
      obtain ⟨_, _, _, _, _, _, _, _, _, _, _, rfl⟩ :=
        Instruction.of_compile_exportEvent_ok hcompile
      exact .nil

theorem Instruction.fresh_injectsAll : ∀ (instructions : List Instruction) {place : Option Scope}
    {names after : Names} {code : List (ChainExtract.Instruction Empty)},
    Plain (Instruction.declaresAll instructions) → names.Sound →
    (Instruction.compileAll library place instructions).run names = .ok (code, after) →
    Fresh names after (ChainExtract.Instruction.injectsAll code)
  | [], _, _, _, _, _, _, hcompile => by
      rw [Instruction.compileAll] at hcompile
      obtain ⟨rfl, _⟩ := Compiler.of_pure_ok hcompile
      exact .nil
  | instruction :: rest, place, names, after, code, hplain, hsound, hcompile => by
      rw [Instruction.declaresAll, plain_append] at hplain
      obtain ⟨first, middle, others, hfirst, hothers, rfl⟩ :=
        Instruction.of_compileAll_cons_ok hcompile
      have hmiddle : names.Grows middle := Instruction.keeps_compile library
        (Names.closed_grows hplain.1 names) instruction place (List.Subset.refl _) names first
        middle hsound.grows hfirst
      have hafter : middle.Grows after := Instruction.keeps_compileAll library
        (Names.closed_grows hplain.2 middle) rest place (List.Subset.refl _) middle others after
        hmiddle.sound.grows hothers
      exact .append ((Instruction.fresh_injects instruction hplain.1 hsound hfirst).imp
        (fun _ h => h) hafter.issued)
        ((Instruction.fresh_injectsAll rest hplain.2 hmiddle.sound hothers).imp hmiddle.issued
          fun _ h => h)

end

end Plan

end ChainExtract
