import ChainExtract.Proofs.Scoping.Compilation

/-! # What the compilation does to names

The compilation changes names in three ways only: it declares variables that its
plan mentions, it enters bodies and it leaves them. A property that all three keep
holds of the names behind every plan that compiles.
-/

namespace ChainExtract

/-- Declaring one of the variables, entering a body and leaving it keep the property. -/
structure Names.Closed (vars : List String) (P : Names → Prop) : Prop where
  declare : ∀ names name type, name ∈ vars → P names → P (names.declare name type).2
  enter : ∀ names, P names → P names.enter
  leave : ∀ names, P names → P names.leave

namespace Compiler

variable {α β : Type} {vars : List String} {P : Names → Prop}

/-- From names with the property a compilation that succeeds comes to such names. -/
def Keeps (P : Names → Prop) (x : Compiler α) : Prop :=
  ∀ names result after, P names → x.run names = .ok (result, after) → P after

theorem Keeps.bind {x : Compiler α} {f : α → Compiler β} (hx : Keeps P x)
    (hf : ∀ result, Keeps P (f result)) : Keeps P (x >>= f) := by
  intro names result after hnames hrun
  obtain ⟨first, middle, hfirst, hrest⟩ := of_bind_ok hrun
  exact hf first middle result after (hx names first middle hnames hfirst) hrest

theorem keeps_pure (result : α) : Keeps P (pure result : Compiler α) := by
  intro names found after hnames hrun
  obtain ⟨_, rfl⟩ := of_pure_ok hrun
  exact hnames

theorem keeps_throw (error : CompileError) : Keeps P (throw error : Compiler α) := by
  intro names result after _ hrun
  cases hrun

theorem keeps_get : Keeps P (get : Compiler Names) := by
  intro names result after hnames hrun
  cases hrun
  exact hnames

theorem keeps_lift (x : Except CompileError α) : Keeps P (StateT.lift x : Compiler α) := by
  intro names result after hnames hrun
  obtain ⟨_, rfl⟩ := of_lift_ok hrun
  exact hnames

theorem keeps_ofExcept (x : Except Error α) : Keeps P (Compiler.ofExcept x) := by
  intro names result after hnames hrun
  obtain ⟨_, rfl⟩ := of_ofExcept_ok hrun
  exact hnames

theorem keeps_requirePlace (instruction required : String) (places : List (Option Scope))
    (place : Option Scope) : Keeps P (requirePlace instruction required places place) := by
  unfold requirePlace
  split
  · exact keeps_pure ()
  · exact keeps_throw _

theorem keeps_declare (hclosed : Names.Closed vars P) {name : String} (hname : name ∈ vars)
    (type : ValueType) : Keeps P (Compiler.declare name type) := by
  intro names storage after hnames hrun
  obtain ⟨_, rfl⟩ := of_declare_ok hrun
  exact hclosed.declare names name type hname hnames

theorem keeps_assign (hclosed : Names.Closed vars P) {name : String} (hname : name ∈ vars)
    (type : ValueType) : Keeps P (Compiler.assign name type) := by
  intro names storage after hnames hrun
  obtain ⟨_, rfl⟩ := of_assign_ok hrun
  unfold Names.assign
  split
  · split
    · exact hnames
    · exact hclosed.declare names name type hname hnames
  · exact hclosed.declare names name type hname hnames

theorem Keeps.nested (hclosed : Names.Closed vars P) {body : Compiler α} (hbody : Keeps P body) :
    Keeps P (Compiler.nested body) := by
  intro names result after hnames hrun
  obtain ⟨inner, hinside, rfl⟩ := of_nested_ok hrun
  exact hclosed.leave inner (hbody _ _ _ (hclosed.enter names hnames) hinside)

end Compiler

namespace Plan

open Compiler

variable {vars : List String} {P : Names → Prop} (library : Library) (place : Option Scope)

theorem keeps_resolveCall (hclosed : Names.Closed vars P) (name : String) (types : List ValueType)
    {result : Option String} (hresult : result.toList ⊆ vars) :
    Keeps P (resolveCall library name types result) := by
  refine Keeps.bind (keeps_ofExcept _) fun method => ?_
  cases result with
  | none => exact keeps_pure _
  | some target =>
      have htarget : target ∈ vars := hresult (by simp)
      exact (keeps_assign hclosed htarget _).bind fun _ => keeps_pure _

mutual

theorem Operand.keeps_compile (hclosed : Names.Closed vars P) :
    ∀ operand : Operand, operand.declares ⊆ vars →
    Keeps P (Operand.compile library place operand)
  | .stored name, _ => by
      rw [Operand.compile]
      refine Keeps.bind keeps_get fun names => ?_
      cases names.find? name with
      | none => exact keeps_throw _
      | some declared => exact keeps_pure _
  | .chain name, _ => by
      rw [Operand.compile]
      cases ChainVariable.find? name with
      | none => exact keeps_throw _
      | some var =>
          simp only
          split
          · exact keeps_pure _
          · exact keeps_throw _
  | .call name arguments result, hvars => by
      rw [Operand.declares, List.append_subset] at hvars
      rw [Operand.compile]
      apply (Operand.keeps_compileAll hclosed arguments hvars.1).bind
      rintro ⟨operands, types⟩
      exact (keeps_resolveCall library hclosed name types hvars.2).bind fun _ => keeps_pure _
  | .list items, hvars => by
      rw [Operand.declares] at hvars
      rw [Operand.compile]
      exact (Operand.keeps_compileAll hclosed items hvars).bind fun _ => keeps_pure _
  | .address value, _ | .bytes value, _ => by
      rw [Operand.compile]
      exact keeps_pure _
  | .integer text, _ => by
      rw [Operand.compile]
      cases integer? text with
      | none => exact keeps_throw _
      | some n => exact keeps_pure _
  | .literal json, _ => by
      rw [Operand.compile]
      exact (keeps_lift _).bind fun _ => keeps_pure _

theorem Operand.keeps_compileAll (hclosed : Names.Closed vars P) :
    ∀ operands : List Operand, Operand.declaresAll operands ⊆ vars →
      Keeps P (Operand.compileAll library place operands)
  | [], _ => by
      rw [Operand.compileAll]
      exact keeps_pure _
  | operand :: operands, hvars => by
      rw [Operand.declaresAll, List.append_subset] at hvars
      rw [Operand.compileAll]
      apply (Operand.keeps_compile hclosed operand hvars.1).bind
      intro first
      exact (Operand.keeps_compileAll hclosed operands hvars.2).bind fun _ => keeps_pure _

end

theorem Operand.keeps_compileTyped (hclosed : Names.Closed vars P)
    (context : String) (expected : ValueType) (operand : Operand)
    (hvars : operand.declares ⊆ vars) :
    Keeps P (Operand.compileTyped library place context expected operand) := by
  apply (Operand.keeps_compile library place hclosed operand hvars).bind
  intro found
  simp only
  split
  · exact keeps_pure _
  · exact keeps_throw _

theorem Operand.keeps_compileAddresses (hclosed : Names.Closed vars P)
    (context : String) (operand : Operand)
    (hvars : operand.declares ⊆ vars) :
    Keeps P (Operand.compileAddresses library place context operand) := by
  apply (Operand.keeps_compile library place hclosed operand hvars).bind
  intro found
  simp only
  split
  · exact keeps_pure _
  · exact keeps_pure _
  · exact keeps_pure _
  · exact keeps_pure _
  · exact keeps_throw _

theorem Operand.keeps_compile? {compile : Operand → Compiler ChainExtract.Operand}
    (hcompile : ∀ operand, operand.declares ⊆ vars → Keeps P (compile operand))
    {operand? : Option Operand} (hvars : Operand.declares? operand? ⊆ vars) :
    Keeps P (Operand.compile? compile operand?) := by
  cases operand? with
  | none => exact keeps_pure _
  | some operand =>
      rw [Operand.compile?, map_eq_pure_bind]
      exact (hcompile operand hvars).bind fun _ => keeps_pure _

theorem Operand.keeps_compileNamed (hclosed : Names.Closed vars P)
    {columns : List (String × Operand)}
    (hvars : Operand.declaresCells columns ⊆ vars) :
    Keeps P (Operand.compileNamed library place columns) := by
  induction columns with
  | nil => exact keeps_pure _
  | cons column columns ih =>
      obtain ⟨hfirst, hrest⟩ := List.append_subset.mp hvars
      apply (Operand.keeps_compile library place hclosed column.2 hfirst).bind
      intro found
      exact (ih hrest).bind fun _ => keeps_pure _

theorem Attribute.keeps_compileAll (hclosed : Names.Closed vars P)
    {attributes : List Attribute}
    (hvars : Attribute.declaresAll attributes ⊆ vars) :
    Keeps P (Attribute.compileAll library place attributes) := by
  induction attributes with
  | nil => exact keeps_pure _
  | cons entry attributes ih =>
      obtain ⟨hfirst, hrest⟩ := List.append_subset.mp hvars
      apply (Operand.keeps_compile library place hclosed entry.value hfirst).bind
      intro found
      exact (ih hrest).bind fun _ => keeps_pure _

theorem Parameter.keeps_compileAll (hclosed : Names.Closed vars P)
    {parameters : List Parameter}
    (hvars : parameters.map (·.name) ⊆ vars) : Keeps P (Parameter.compileAll parameters) := by
  induction parameters with
  | nil => exact keeps_pure _
  | cons parameter parameters ih =>
      obtain ⟨hfirst, hrest⟩ := List.cons_subset.mp hvars
      refine Keeps.bind (keeps_ofExcept _) fun declared => ?_
      apply (keeps_declare hclosed hfirst _).bind
      intro storage
      exact (ih hrest).bind fun _ => keeps_pure _

theorem MemberOutput.keeps_compileAll (hclosed : Names.Closed vars P)
    {outputs : List MemberOutput}
    (hvars : outputs.map (·.name) ⊆ vars) : Keeps P (MemberOutput.compileAll outputs) := by
  induction outputs with
  | nil => exact keeps_pure _
  | cons output outputs ih =>
      obtain ⟨hfirst, hrest⟩ := List.cons_subset.mp hvars
      refine Keeps.bind (keeps_ofExcept _) fun type => ?_
      apply (keeps_declare hclosed hfirst _).bind
      intro storage
      exact (ih hrest).bind fun _ => keeps_pure _

theorem MemberQuery.keeps_compileInputs (hclosed : Names.Closed vars P)
    {queries : List MemberQuery}
    (hvars : MemberQuery.declaresAll queries ⊆ vars) :
    Keeps P (MemberQuery.compileInputs library place queries) := by
  induction queries with
  | nil => exact keeps_pure _
  | cons query queries ih =>
      obtain ⟨hfirst, hrest⟩ := List.append_subset.mp hvars
      apply (Operand.keeps_compileAll library place hclosed query.inputs
        (List.append_subset.mp hfirst).1).bind
      intro found
      exact (ih hrest).bind fun _ => keeps_pure _

theorem MemberQuery.keeps_compileAll (hclosed : Names.Closed vars P)
    {queries : List MemberQuery}
    (hvars : MemberQuery.declaresAll queries ⊆ vars) (inputs : List (List ChainExtract.Operand)) :
    Keeps P (MemberQuery.compileAll queries inputs) := by
  induction queries generalizing inputs with
  | nil => exact keeps_pure _
  | cons query queries ih =>
      cases inputs with
      | nil => exact keeps_pure _
      | cons input inputs =>
          obtain ⟨hfirst, hrest⟩ := List.append_subset.mp hvars
          apply (MemberOutput.keeps_compileAll hclosed (List.append_subset.mp hfirst).2).bind
          intro outputs
          exact (ih hrest inputs).bind fun _ => keeps_pure _

mutual

theorem Instruction.keeps_compile (hclosed : Names.Closed vars P) :
    ∀ (instruction : Instruction) (place : Option Scope),
    instruction.declares ⊆ vars → Keeps P (Instruction.compile library place instruction)
  | .blocks first last body, place, hvars => by
      rw [Instruction.declares, List.append_subset, List.append_subset] at hvars
      rw [Instruction.compile]
      refine Keeps.bind (keeps_requirePlace _ _ _ _) fun _ => ?_
      apply (Operand.keeps_compileTyped library place hclosed _ _ first hvars.1).bind
      intro lower
      apply (Operand.keeps_compile?
        (Operand.keeps_compileTyped library place hclosed _ _) hvars.2.1).bind
      intro upper
      exact ((Instruction.keeps_compileAll hclosed body _ hvars.2.2).nested hclosed).bind
        fun _ => keeps_pure _
  | .transactions senders recipients body, place, hvars => by
      rw [Instruction.declares, List.append_subset, List.append_subset] at hvars
      rw [Instruction.compile]
      refine Keeps.bind (keeps_requirePlace _ _ _ _) fun _ => ?_
      apply (Operand.keeps_compile?
        (Operand.keeps_compileAddresses library place hclosed _) hvars.1).bind
      intro from?
      apply (Operand.keeps_compile?
        (Operand.keeps_compileAddresses library place hclosed _) hvars.2.1).bind
      intro to?
      exact ((Instruction.keeps_compileAll hclosed body _ hvars.2.2).nested hclosed).bind
        fun _ => keeps_pure _
  | .logEntries event parameters emitters body, place, hvars => by
      rw [Instruction.declares, List.append_subset, List.append_subset] at hvars
      rw [Instruction.compile]
      refine Keeps.bind (keeps_requirePlace _ _ _ _) fun _ => ?_
      apply (Operand.keeps_compile?
        (Operand.keeps_compileAddresses library place hclosed _) hvars.1).bind
      intro emitters?
      refine Keeps.nested hclosed ((Parameter.keeps_compileAll hclosed hvars.2.1).bind fun _ => ?_)
      exact (Instruction.keeps_compileAll hclosed body _ hvars.2.2).bind fun _ => keeps_pure _
  | .when condition body, place, hvars => by
      rw [Instruction.declares, List.append_subset] at hvars
      rw [Instruction.compile]
      apply (Operand.keeps_compileTyped library place hclosed _ _ condition hvars.1).bind
      intro test
      exact ((Instruction.keeps_compileAll hclosed body _ hvars.2).nested hclosed).bind
        fun _ => keeps_pure _
  | .contract address queries body, place, hvars => by
      rw [Instruction.declares, List.append_subset, List.append_subset] at hvars
      rw [Instruction.compile]
      refine Keeps.bind (keeps_requirePlace _ _ _ _) fun _ => ?_
      apply (Operand.keeps_compileTyped library place hclosed _ _ address hvars.1).bind
      intro contract
      apply (MemberQuery.keeps_compileInputs library place hclosed hvars.2.1).bind
      intro inputs
      refine Keeps.nested hclosed
        ((MemberQuery.keeps_compileAll hclosed hvars.2.1 inputs).bind fun _ => ?_)
      exact (Instruction.keeps_compileAll hclosed body _ hvars.2.2).bind fun _ => keeps_pure _
  | .assign target value, place, hvars => by
      rw [Instruction.declares, List.append_subset] at hvars
      rw [Instruction.compile]
      apply (Operand.keeps_compile library place hclosed value hvars.1).bind
      intro found
      exact (keeps_assign hclosed (hvars.2 (List.mem_singleton_self target)) _).bind
        fun _ => keeps_pure _
  | .call method arguments result, place, hvars => by
      rw [Instruction.declares, List.append_subset] at hvars
      rw [Instruction.compile]
      apply (Operand.keeps_compileAll library place hclosed arguments hvars.1).bind
      intro found
      exact (keeps_resolveCall library hclosed _ _ hvars.2).bind fun _ => keeps_pure _
  | .exportRow table columns, place, hvars => by
      rw [Instruction.compile]
      exact (Operand.keeps_compileNamed library place hclosed hvars).bind fun _ => keeps_pure _
  | .exportLine parts, place, hvars => by
      rw [Instruction.compile]
      exact (Operand.keeps_compileAll library place hclosed parts hvars).bind fun _ => keeps_pure _
  | .exportEvent trace event attributes, place, hvars => by
      rw [Instruction.declares, List.append_subset, List.append_subset] at hvars
      rw [Instruction.compile]
      apply (Operand.keeps_compile library place hclosed trace hvars.1).bind
      intro _
      apply (Operand.keeps_compile library place hclosed event hvars.2.1).bind
      intro _
      exact (Attribute.keeps_compileAll library place hclosed hvars.2.2).bind fun _ => keeps_pure _

/-- Whatever declaring its variables, entering bodies and leaving them keep, the compilation
of a body keeps. -/
theorem Instruction.keeps_compileAll (hclosed : Names.Closed vars P) :
    ∀ (instructions : List Instruction) (place : Option Scope),
    Instruction.declaresAll instructions ⊆ vars →
    Keeps P (Instruction.compileAll library place instructions)
  | [], place, _ => by
      rw [Instruction.compileAll]
      exact keeps_pure _
  | instruction :: rest, place, hvars => by
      rw [Instruction.declaresAll, List.append_subset] at hvars
      rw [Instruction.compileAll]
      apply (Instruction.keeps_compile hclosed instruction place hvars.1).bind
      intro compiled
      exact (Instruction.keeps_compileAll hclosed rest place hvars.2).bind fun _ => keeps_pure _

end

end Plan

end ChainExtract
