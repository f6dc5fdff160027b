import ChainExtract.Proofs.Scoping.Declarations
import Mathlib.Data.List.Nodup
import Mathlib.Data.List.Perm.Subperm

/-! # When storage names are unique

A storage name is either the declared name itself or that name with a mark and the
count of the declaration behind it. A plan may use the mark in names of its own, and
then one declaration can get the storage name of another: exactly if a declared name is
spelled like one that is generated for a later declaration of another name.
-/

namespace ChainExtract

namespace Names

/-- Two declarations share a storage name only if the name of one is what is generated for the
other. -/
theorem storageName_eq_cases {name other : String} {count place : Nat}
    (hsame : storageName name count = storageName other place) :
    (name = other ∧ count = place) ∨ (count = 0 ∧ 0 < place ∧ name = storageName other place) ∨
      (place = 0 ∧ 0 < count ∧ other = storageName name count) := by
  by_cases hcount : count = 0 <;> by_cases hplace : place = 0
  · subst hcount hplace
    exact Or.inl ⟨hsame, rfl⟩
  · subst hcount
    exact Or.inr (Or.inl ⟨rfl, Nat.pos_of_ne_zero hplace, hsame⟩)
  · subst hplace
    exact Or.inr (Or.inr ⟨rfl, Nat.pos_of_ne_zero hcount, hsame.symm⟩)
  · exact Or.inl (generated_injective hcount hplace hsame)

/-- The declarations that have been made: the names, each with the count of its declarations
before. -/
def declarations (names : Names) : List (String × Nat) :=
  names.counts.flatMap fun entry => (List.range entry.2).map fun place => (entry.1, place)

/-- The storage names that the declarations have got. -/
def storages (names : Names) : List String :=
  names.declarations.map fun declaration => storageName declaration.1 declaration.2

/-- A declared name is spelled like the storage name of a later declaration of another name. -/
def Clashes (names : Names) : Prop :=
  ∃ name other place, 0 < names.count name ∧ 0 < place ∧ place < names.count other ∧
    name = storageName other place

/-- A declaration adds its storage name to those that there are, and nothing else. -/
theorem storages_declare (names : Names) (name : String) (type : ValueType) :
    (names.declare name type).2.storages.Perm ((names.declare name type).1 :: names.storages) := by
  have hdeclarations : (names.declare name type).2.declarations.Perm
      ((name, names.count name) :: names.declarations) := by
    simp only [declare, declarations, Names.count]
    generalize names.counts = counts
    induction counts with
    | nil => simp [Keyed.set, Keyed.update, Keyed.get?]
    | cons entry rest ih =>
        by_cases hname : entry.1 = name
        · have hcount : Keyed.get? (entry :: rest) name = some entry.2 := by
            simp [Keyed.get?, hname]
          simp only [Keyed.set, Keyed.update, hname, hcount, ↓reduceIte, Option.getD_some,
            List.flatMap_cons, List.range_succ, List.map_append, List.map_cons, List.map_nil,
            List.append_assoc, List.singleton_append]
          exact List.perm_middle
        · have hcount : Keyed.get? (entry :: rest) name = Keyed.get? rest name := by
            simp [Keyed.get?, hname]
          simp only [Keyed.set, Keyed.update, hname, hcount, ↓reduceIte, List.flatMap_cons] at ih ⊢
          exact (ih.append_left _).trans List.perm_middle
  exact hdeclarations.map _

/-- Where the variables of all frames are stored, the innermost frame first. -/
def visible (names : Names) : List String :=
  names.frames.flatMap fun frame => frame.map fun entry => entry.2.storage

theorem visible_set (frame : Keyed String Declared) (name : String) (declared : Declared) :
    ((frame.set name declared).map (·.2.storage)).Subperm
      (declared.storage :: frame.map (·.2.storage)) := by
  induction frame with
  | nil => exact .refl _
  | cons entry rest ih =>
      by_cases hname : entry.1 = name
      · simp only [Keyed.set, Keyed.update, hname, ↓reduceIte, List.map_cons]
        exact ((List.sublist_cons_self _ _).cons_cons _).subperm
      · simp only [Keyed.set, Keyed.update, hname, ↓reduceIte, List.map_cons] at ih ⊢
        exact ((List.subperm_cons _).mpr ih).trans (List.Perm.swap _ _ _).subperm

/-- No more variables are stored than were declared. -/
theorem closed_stored (vars : List String) :
    Closed vars fun names => names.visible.Subperm names.storages where
  declare := by
    intro names name type _ hstored
    refine .trans ?_ (storages_declare names name type).symm.subperm
    refine .trans ?_ ((List.subperm_cons _).mpr hstored)
    cases hframes : names.frames with
    | nil => simp [declare, visible, hframes]
    | cons frame outer =>
        simp only [declare, visible, hframes, List.flatMap_cons]
        exact (List.subperm_append_right _).mpr (visible_set frame name _)
  enter := fun _ hstored => hstored
  leave := by
    intro names hstored
    refine List.Subperm.trans ?_ hstored
    simp only [leave, visible]
    cases names.frames with
    | nil => exact .refl _
    | cons => exact (List.sublist_append_right _ _).subperm

/-- What the compilation records: each name once, and only names that the plan mentions. -/
structure Recorded (vars : List String) (names : Names) : Prop where
  nodup : names.counts.keys.Nodup
  mentioned : ∀ name ∈ names.counts.keys, name ∈ vars

theorem closed_recorded (vars : List String) : Closed vars (Recorded vars) where
  declare := by
    intro names name type hname hrecorded
    have hkeys : (names.declare name type).2.counts.keys =
        if name ∈ names.counts.keys then names.counts.keys else names.counts.keys ++ [name] :=
      Keyed.keys_update _ _ _
    constructor
    · rw [hkeys]
      split
      · exact hrecorded.nodup
      next hnew =>
        refine List.nodup_append.mpr ⟨hrecorded.nodup, List.nodup_singleton name, ?_⟩
        rintro other hother _ hname rfl
        exact hnew (List.mem_singleton.mp hname ▸ hother)
    · intro other hother
      rw [hkeys] at hother
      split at hother
      · exact hrecorded.mentioned other hother
      · rcases List.mem_append.mp hother with hold | hnew
        · exact hrecorded.mentioned other hold
        · rw [List.mem_singleton.mp hnew]
          exact hname
  enter := by
    intro names hrecorded
    exact ⟨hrecorded.nodup, hrecorded.mentioned⟩
  leave := by
    intro names hrecorded
    exact ⟨hrecorded.nodup, hrecorded.mentioned⟩

section Recorded

variable {vars : List String} {names : Names}

theorem recorded_empty : Recorded vars {} :=
  ⟨List.nodup_nil, by simp [Keyed.keys]⟩

theorem Recorded.mem_declarations (hrecorded : Recorded vars names) {name : String} {place : Nat} :
    (name, place) ∈ names.declarations ↔ place < names.count name := by
  have hnodup := hrecorded.nodup
  simp only [declarations, Names.count, List.mem_flatMap, List.mem_map, List.mem_range,
    Prod.mk.injEq]
  generalize names.counts = counts at hnodup ⊢
  induction counts with
  | nil => simp [Keyed.get?]
  | cons entry rest ih =>
      obtain ⟨hfirst, hrest⟩ := List.nodup_cons.mp hnodup
      by_cases hname : entry.1 = name
      · have hnone : ∀ other ∈ rest, other.1 ≠ name := by
          intro other hother hsame
          exact hfirst (List.mem_map.mpr ⟨other, hother, hsame.trans hname.symm⟩)
        simp only [List.mem_cons, Keyed.get?, hname, List.find?_cons, BEq.rfl]
        constructor
        · rintro ⟨other, rfl | hother, _, hplace, hsame, rfl⟩
          · exact hplace
          · exact absurd hsame (hnone other hother)
        · intro hplace
          exact ⟨entry, Or.inl rfl, place, hplace, hname, rfl⟩
      · have hcount : Keyed.get? (entry :: rest) name = Keyed.get? rest name := by
          simp [Keyed.get?, hname]
        rw [hcount]
        refine Iff.trans ?_ (ih hrest)
        constructor
        · rintro ⟨other, hother, found⟩
          rcases List.mem_cons.mp hother with rfl | hlater
          · obtain ⟨_, _, hsame, _⟩ := found
            exact absurd hsame hname
          · exact ⟨other, hlater, found⟩
        · rintro ⟨other, hother, found⟩
          exact ⟨other, List.mem_cons_of_mem _ hother, found⟩

theorem Recorded.nodup_declarations (hrecorded : Recorded vars names) :
    names.declarations.Nodup := by
  rw [declarations, List.nodup_flatMap]
  constructor
  · intro entry _
    exact List.nodup_range.map fun _ _ hsame => (Prod.mk.inj hsame).2
  · refine List.Pairwise.imp ?_ (List.pairwise_map.mp hrecorded.nodup)
    intro first second hne declaration hfirst hsecond
    obtain ⟨_, _, rfl⟩ := List.mem_map.mp hfirst
    obtain ⟨_, _, hsame⟩ := List.mem_map.mp hsecond
    exact hne (Prod.mk.inj hsame).1.symm

/-- Storage names are unique exactly if no declared name is spelled like a generated one. -/
theorem Recorded.nodup_storages_iff (hrecorded : Recorded vars names) :
    names.storages.Nodup ↔ ¬ names.Clashes := by
  rw [storages, List.nodup_map_iff_inj_on hrecorded.nodup_declarations]
  constructor
  · rintro hinjective ⟨name, other, place, hname, hpos, hplace, hspelled⟩
    have hpair := hinjective (name, 0) (hrecorded.mem_declarations.mpr hname) (other, place)
      (hrecorded.mem_declarations.mpr hplace) hspelled
    exact absurd (Prod.mk.inj hpair).2 (Nat.ne_of_lt hpos)
  · rintro hclear ⟨name, count⟩ hname ⟨other, place⟩ hother hsame
    have hcount := hrecorded.mem_declarations.mp hname
    have hplace := hrecorded.mem_declarations.mp hother
    rcases storageName_eq_cases hsame with
      ⟨rfl, rfl⟩ | ⟨rfl, hpos, hspelled⟩ | ⟨rfl, hpos, hspelled⟩
    · rfl
    · exact absurd ⟨name, other, place, hcount, hpos, hplace, hspelled⟩ hclear
    · exact absurd ⟨other, name, count, hplace, hpos, hcount, hspelled⟩ hclear

/-- Without the mark in declared names there is no clash. -/
theorem Recorded.not_clashes (hrecorded : Recorded vars names) (hplain : Plain vars) :
    ¬ names.Clashes := by
  rintro ⟨name, other, place, hname, hpos, _, hspelled⟩
  have hmentioned : name ∈ vars := by
    have hmem := hrecorded.mem_declarations.mpr hname
    obtain ⟨entry, hentry, hfound⟩ := List.mem_flatMap.mp hmem
    obtain ⟨_, _, hsame⟩ := List.mem_map.mp hfound
    have hkey : entry.1 ∈ names.counts.keys := List.mem_map_of_mem hentry
    rw [(Prod.mk.inj hsame).1] at hkey
    exact hrecorded.mentioned name hkey
  apply hplain name hmentioned
  rw [hspelled, toList_storageName other (Nat.ne_of_gt hpos)]
  simp

end Recorded

end Names

namespace Plan

/-- Behind instructions that compile, no two variables of the frames are stored under one name
unless declared names clash. -/
theorem Instruction.nodup_visible_of_compileAll {library : Library} {place : Option Scope}
    {instructions : List Instruction} {vars : List String} {names after : Names}
    {code : List (ChainExtract.Instruction Empty)} (hdeclares : declaresAll instructions ⊆ vars)
    (hrecorded : names.Recorded vars) (hstored : names.visible.Subperm names.storages)
    (hrun : (compileAll library place instructions).run names = .ok (code, after))
    (hclear : ¬ after.Clashes) : after.visible.Nodup := by
  have hafter : after.Recorded vars := keeps_compileAll library (Names.closed_recorded vars)
    instructions place hdeclares _ _ _ hrecorded hrun
  obtain ⟨storages, hperm, hsublist⟩ := keeps_compileAll library (Names.closed_stored vars)
    instructions place hdeclares _ _ _ hstored hrun
  exact hperm.nodup_iff.mp ((hafter.nodup_storages_iff.mpr hclear).sublist hsublist)

/-- Whatever names a plan uses, its declarations get different storage names unless a declared
name is spelled like the storage name that is generated for a later declaration of another
name; without the mark in its names they always do. -/
theorem nodup_storages_of_compile {library : Library} {plan : Plan} {program : Program Empty}
    (hcompile : plan.compile library = .ok program) :
    ∃ names, (Instruction.compileAll library none plan.instructions).run {} = .ok (program, names) ∧
      (names.storages.Nodup ↔ ¬ names.Clashes) ∧ (Plain plan.declares → names.storages.Nodup) := by
  obtain ⟨names, hrun⟩ := exists_run_of_compile hcompile
  have hrecorded : names.Recorded plan.declares :=
    Instruction.keeps_compileAll library (Names.closed_recorded plan.declares) plan.instructions
      none
      (List.Subset.refl _) {} program names Names.recorded_empty hrun
  refine ⟨names, hrun, hrecorded.nodup_storages_iff, fun hplain => ?_⟩
  exact hrecorded.nodup_storages_iff.mpr (hrecorded.not_clashes hplain)

/-- A plan in which a declared name has the mark, but nothing is generated that is spelled like it:
the second declaration of `x#1` is stored as `x#1#1`. -/
def markedPlan : Plan where
  outputs := []
  instructions :=
    [.assign "x#1" (.literal (.scalar (.integer 1))),
      .assign "x#1" (.literal (.scalar (.bool true))),
      .exportLine [.stored "x#1"]]

/-- Its program and the names behind it. -/
def markedProgram : Program Empty :=
  [.assign "x#1" (.literal (.int 1)), .assign "x#1#1" (.literal (.bool true)),
    .exportLine [.stored "x#1#1"]]

def markedNames : Names where
  frames := [[("x#1", ⟨"x#1#1", .bool⟩)]]
  counts := [("x#1", 2)]

theorem nodup_storages_of_compile_marked :
    markedPlan.compile .empty = .ok markedProgram ∧
      (Instruction.compileAll .empty none markedPlan.instructions).run {} =
        .ok (markedProgram, markedNames) ∧
      markedNames.storages = ["x#1", "x#1#1"] ∧ markedNames.storages.Nodup ∧
      ¬ markedNames.Clashes := by
  have hname : Names.storageName "x#1" 1 = "x#1#1" := by decide +kernel
  have hrun : (Instruction.compileAll .empty none markedPlan.instructions).run {} =
      .ok (markedProgram, markedNames) := by
    rw [markedProgram, markedNames, ← hname]
    rfl
  have hcompile : markedPlan.compile .empty = .ok markedProgram := by
    rw [compile, StateT.run'_eq, hrun]
    rfl
  have hstorages : markedNames.storages = ["x#1", "x#1#1"] := by decide +kernel
  have hnodup : markedNames.storages.Nodup := by
    rw [hstorages]
    decide
  obtain ⟨names, hnames, hiff, _⟩ := nodup_storages_of_compile hcompile
  obtain rfl : names = markedNames := by
    rw [hrun] at hnames
    cases hnames
    rfl
  exact ⟨hcompile, hrun, hstorages, hnodup, hiff.mp hnodup⟩

/-- A plan in which a declared name is spelled like the storage name of a later declaration. -/
def clashingPlan : Plan where
  outputs := []
  instructions :=
    [.assign "x#1" (.literal (.scalar (.integer 1))),
      .assign "x" (.literal (.scalar (.string "a"))),
      .assign "x" (.literal (.scalar (.bool true))),
      .exportLine [.stored "x#1"]]

/-- Its program, in which two variables of different types are stored under one name. -/
def clashingProgram : Program Empty :=
  [.assign "x#1" (.literal (.int 1)), .assign "x" (.literal (.str "a")),
    .assign "x#1" (.literal (.bool true)), .exportLine [.stored "x#1"]]

/-- Storage names of a plan that compiles need not be unique: here an integer variable is
overwritten by a truth value that was assigned to another variable. -/
theorem storages_shared_of_clash :
    clashingPlan.compile .empty = .ok clashingProgram ∧
      (∃ names, (Instruction.compileAll .empty none clashingPlan.instructions).run {} =
          .ok (clashingProgram, names) ∧
        names.storages = ["x#1", "x", "x#1"] ∧ ¬ names.storages.Nodup) ∧
      ∃ after, (Program.run Empty.elim clashingProgram).run (BlockRange.forkingSettings 39 0 [])
          BlockRange.forkingStart = .ok () after ∧
        after.journal.head? = some (.exported (.line "true")) := by
  have hname : Names.storageName "x" 1 = "x#1" := by decide +kernel
  have hrun : (Instruction.compileAll .empty none clashingPlan.instructions).run {} =
      .ok ([.assign "x#1" (.literal (.int 1)), .assign "x" (.literal (.str "a")),
          .assign (Names.storageName "x" 1) (.literal (.bool true)), .exportLine [.stored "x#1"]],
        ⟨[[("x#1", ⟨"x#1", .int⟩), ("x", ⟨Names.storageName "x" 1, .bool⟩)]],
          [("x#1", 1), ("x", 2)]⟩) := rfl
  rw [hname] at hrun
  refine ⟨?_, ⟨_, hrun, ?_⟩, ?_⟩
  · rw [compile, StateT.run'_eq, hrun]
    rfl
  · decide +kernel
  · exact ⟨_, rfl, rfl⟩

end Plan

end ChainExtract
