import ChainExtract.Proofs.Scoping.Interpreter
import ChainExtract.Proofs.Scoping.StorageNames

/-! # The store and the frames

The visible variables of the compilation relate the flat store of a program to
the frames of its plan: each is found in the store under its storage name, and in
the frame of its declaration under its own name, with the same value.
-/

namespace ChainExtract

/-- The stored variables of a frame stand for its variables, name by name. -/
structure FrameAgrees (store : Store) (stored : Keyed String Declared)
    (frame : Keyed String Binding) : Prop where
  declared : ∀ name declared, stored.get? name = some declared →
    ∃ value, frame.get? name = some ⟨declared.type, value⟩ ∧
      store.get? declared.storage = some value
  undeclared : ∀ name, stored.get? name = none → frame.get? name = none

/-- The visible variables of the store and of the frames agree. -/
def Framed (names : Names) (store : Store) (frames : Frames) : Prop :=
  List.Forall₂ (FrameAgrees store) names.frames frames

/-- They agree outside of the innermost frame. -/
def Outer (names : Names) (store : Store) (frames : Frames) : Prop :=
  List.Forall₂ (FrameAgrees store) names.frames.tail frames.tail

theorem frameAgrees_nil (store : Store) : FrameAgrees store [] [] :=
  ⟨fun _ _ hget => by simp [Keyed.get?] at hget, fun _ _ => rfl⟩

theorem FrameAgrees.of_get?_eq {store after : Store} {stored : Keyed String Declared}
    {frame : Keyed String Binding} (hagrees : FrameAgrees store stored frame)
    (hkept : ∀ storage, Names.Uses stored storage → after.get? storage = store.get? storage) :
    FrameAgrees after stored frame := by
  refine ⟨?_, hagrees.undeclared⟩
  intro name declared hget
  obtain ⟨value, hframe, hvalue⟩ := hagrees.declared name declared hget
  exact ⟨value, hframe, (hkept _ ⟨name, declared, hget, rfl⟩).trans hvalue⟩

theorem forall₂_of_get?_eq {store after : Store} {stored : List (Keyed String Declared)}
    {frames : Frames} (hagrees : List.Forall₂ (FrameAgrees store) stored frames)
    (hkept : ∀ frame ∈ stored, ∀ storage, Names.Uses frame storage →
      after.get? storage = store.get? storage) :
    List.Forall₂ (FrameAgrees after) stored frames := by
  induction hagrees with
  | nil => exact .nil
  | cons hframe _ ih =>
      refine .cons (hframe.of_get?_eq (hkept _ List.mem_cons_self)) (ih ?_)
      exact fun frame hmem => hkept frame (List.mem_cons_of_mem _ hmem)

theorem forall₂_set {store : Store} {stored : List (Keyed String Declared)} {frames : Frames}
    (hagrees : List.Forall₂ (FrameAgrees store) stored frames) {storage : String}
    (hunused : ∀ frame ∈ stored, ¬ Names.Uses frame storage) (value : Value) :
    List.Forall₂ (FrameAgrees (store.set storage value)) stored frames := by
  refine forall₂_of_get?_eq hagrees fun frame hmem other huses => ?_
  refine store.get?_set_of_ne ?_ value
  rintro rfl
  exact hunused frame hmem huses

theorem Store.get?_eraseAll_of_notMem (store : Store) {storages : List String} {name : String}
    (hname : name ∉ storages) : (store.eraseAll storages).get? name = store.get? name := by
  unfold Store.eraseAll
  induction storages generalizing store with
  | nil => rfl
  | cons storage rest ih =>
      have hfirst : storage ≠ name := (List.ne_of_not_mem_cons hname).symm
      exact (ih _ (List.not_mem_of_not_mem_cons hname)).trans (store.get?_erase_of_ne hfirst)

theorem forall₂_eraseAll {store : Store} {stored : List (Keyed String Declared)} {frames : Frames}
    (hagrees : List.Forall₂ (FrameAgrees store) stored frames) {storages : List String}
    (hunused : ∀ frame ∈ stored, ∀ storage ∈ storages, ¬ Names.Uses frame storage) :
    List.Forall₂ (FrameAgrees (store.eraseAll storages)) stored frames :=
  forall₂_of_get?_eq hagrees fun frame hmem storage huses =>
    store.get?_eraseAll_of_notMem fun hstorage => hunused frame hmem storage hstorage huses

theorem FrameAgrees.set {store : Store} {stored : Keyed String Declared}
    {frame : Keyed String Binding} (hagrees : FrameAgrees store stored frame) (name : String)
    {storage : String} (type : ValueType) {value : Value}
    (hstored : store.get? storage = some value) :
    FrameAgrees store (stored.set name ⟨storage, type⟩) (frame.set name ⟨type, value⟩) := by
  refine ⟨?_, ?_⟩
  · intro other second hget
    rcases Keyed.get?_set_eq_some hget with ⟨rfl, rfl⟩ | ⟨hne, hold⟩
    · refine ⟨value, ?_, hstored⟩
      rw [Keyed.set, Keyed.get?_update_self]
    · obtain ⟨kept, hframe, hvalue⟩ := hagrees.declared other second hold
      refine ⟨kept, ?_, hvalue⟩
      rwa [Keyed.set, Keyed.get?_update_of_ne _ hne]
  · intro other hget
    by_cases hsame : name = other
    · subst hsame
      rw [Keyed.set, Keyed.get?_update_self] at hget
      cases hget
    · rw [Keyed.set, Keyed.get?_update_of_ne _ hsame] at hget ⊢
      exact hagrees.undeclared other hget

/-- A visible variable gets a new value, in the store and in its frame. -/
theorem FrameAgrees.update {store : Store} {stored : Keyed String Declared}
    {frame : Keyed String Binding} (hagrees : FrameAgrees store stored frame) {name : String}
    {declared : Declared} (hget : stored.get? name = some declared)
    (hown : ∀ other second, stored.get? other = some second → second.storage = declared.storage →
      name = other) (value : Value) :
    FrameAgrees (store.set declared.storage value) stored
      (frame.set name ⟨declared.type, value⟩) := by
  refine ⟨?_, ?_⟩
  · intro other second hother
    by_cases hsame : name = other
    · subst hsame
      obtain rfl : declared = second := Option.some.inj (hget.symm.trans hother)
      refine ⟨value, ?_, store.get?_set_self _ value⟩
      rw [Keyed.set, Keyed.get?_update_self]
    · obtain ⟨kept, hframe, hvalue⟩ := hagrees.declared other second hother
      have hapart : declared.storage ≠ second.storage :=
        fun heq => hsame (hown other second hother heq.symm)
      refine ⟨kept, ?_, (store.get?_set_of_ne hapart value).trans hvalue⟩
      rwa [Keyed.set, Keyed.get?_update_of_ne _ hsame]
  · intro other hother
    have hsame : name ≠ other := by
      rintro rfl
      cases hget.symm.trans hother
    rw [Keyed.set, Keyed.get?_update_of_ne _ hsame]
    exact hagrees.undeclared other hother

section

variable {names : Names} {store : Store} {frames : Frames} {name : String}

theorem Framed.outer (hframed : Framed names store frames) : Outer names store frames := by
  unfold Framed at hframed
  unfold Outer
  generalize names.frames = stored at hframed
  cases hframed with
  | nil => exact .nil
  | cons _ houter => exact houter

theorem Framed.enter (hframed : Framed names store frames) :
    Framed names.enter store ([] :: frames) :=
  .cons (frameAgrees_nil store) hframed

/-- A visible variable is found in the frames, with its type and its stored value. -/
theorem Framed.find?_some (hframed : Framed names store frames) {declared : Declared}
    (hfind : names.find? name = some declared) :
    ∃ value, frames.find? name = some ⟨declared.type, value⟩ ∧
      store.get? declared.storage = some value := by
  unfold Framed at hframed
  unfold Names.find? at hfind
  unfold Frames.find?
  generalize names.frames = stored at hframed hfind
  induction hframed with
  | nil => cases hfind
  | @cons flat frame _ _ hframe _ ih =>
      rw [List.findSome?_cons] at hfind ⊢
      cases hget : flat.get? name with
      | some found =>
          rw [hget] at hfind
          cases hfind
          obtain ⟨value, hvalue, hstored⟩ := hframe.declared name declared hget
          exact ⟨value, by rw [hvalue], hstored⟩
      | none =>
          rw [hget] at hfind
          rw [hframe.undeclared name hget]
          exact ih hfind

theorem Framed.find?_none (hframed : Framed names store frames)
    (hfind : names.find? name = none) : frames.find? name = none := by
  unfold Framed at hframed
  unfold Names.find? at hfind
  unfold Frames.find?
  generalize names.frames = stored at hframed hfind
  induction hframed with
  | nil => rfl
  | @cons flat frame _ _ hframe _ ih =>
      rw [List.findSome?_cons] at hfind ⊢
      cases hget : flat.get? name with
      | some found =>
          rw [hget] at hfind
          cases hfind
      | none =>
          rw [hget] at hfind
          rw [hframe.undeclared name hget]
          exact ih hfind

/-- Giving a visible variable a value, in the store and in the frames. -/
theorem Framed.update (hframed : Framed names store frames) (hsound : names.Sound)
    {declared : Declared} (hfind : names.find? name = some declared) (value : Value) :
    Framed names (store.set declared.storage value) (frames.update name value) := by
  have hown : ∀ frame ∈ names.frames, frame.get? name = some declared →
      ∀ other second, frame.get? other = some second → second.storage = declared.storage →
        name = other :=
    fun frame hmem hget other second hother hsame =>
      hsound.name_eq hmem hget hother hsame.symm
  have hdistinct := hsound.distinct
  unfold Framed at hframed ⊢
  unfold Names.find? at hfind
  generalize names.frames = stored at hframed hfind hown hdistinct
  induction hframed with
  | nil => cases hfind
  | @cons flat frame outer _ hframe houter ih =>
      obtain ⟨hinner, hrest⟩ := List.pairwise_cons.mp hdistinct
      rw [List.findSome?_cons] at hfind
      cases hget : flat.get? name with
      | some found =>
          rw [hget] at hfind
          cases hfind
          obtain ⟨old, hold, _⟩ := hframe.declared name declared hget
          have hupdate := hframe.update hget (hown flat List.mem_cons_self hget) value
          rw [Frames.update, hold]
          refine .cons hupdate (forall₂_set houter ?_ value)
          exact fun other hmem => hinner other hmem _ ⟨name, declared, hget, rfl⟩
      | none =>
          rw [hget] at hfind
          rw [Frames.update, hframe.undeclared name hget]
          refine .cons (hframe.of_get?_eq ?_)
            (ih hfind (fun other hmem => hown other (List.mem_cons_of_mem _ hmem)) hrest)
          -- the variable lives in an outer frame, which shares no storage name with this one
          obtain ⟨home, hhome, hfound⟩ := List.exists_of_findSome?_eq_some hfind
          intro storage huses
          refine store.get?_set_of_ne ?_ value
          rintro rfl
          exact hinner home hhome _ huses ⟨name, declared, hfound, rfl⟩

theorem Framed.declare_of_stored (hframed : Framed names store frames) (type : ValueType)
    {value : Value}
    (hstored : store.get? (names.declare name type).1 = some value) :
    Framed (names.declare name type).2 store (frames.declare name ⟨type, value⟩) := by
  unfold Framed at hframed ⊢
  cases hframes : names.frames with
  | nil =>
      rw [hframes] at hframed
      cases hframed
      simp [Names.declare, hframes, Frames.declare]
  | cons flat outer =>
      rw [hframes] at hframed
      have hafter : (names.declare name type).2.frames =
          flat.set name ⟨Names.storageName name (names.count name), type⟩ :: outer := by
        simp [Names.declare, hframes]
      rw [hafter]
      cases hframed with
      | cons hframe houter =>
          exact .cons (hframe.set name type hstored) houter

theorem Framed.set (hframed : Framed names store frames) (hsound : names.Sound) {storage : String}
    (hunissued : ¬ names.Issued storage) (value : Value) :
    Framed names (store.set storage value) frames :=
  forall₂_set hframed (fun _ hmem huses => hunissued (hsound.issued_of_uses hmem huses)) value

/-- Declaring a variable, in the store and in the frames. -/
theorem Framed.declare (hframed : Framed names store frames) (hsound : names.Sound)
    (hname : '#' ∉ name.toList) (type : ValueType) (value : Value) :
    Framed (names.declare name type).2 (store.set (names.declare name type).1 value)
      (frames.declare name ⟨type, value⟩) :=
  (hframed.set hsound (Names.not_issued_declare hname) value).declare_of_stored type
    (store.get?_set_self _ value)

/-- Assigning to a name does the same in the store as in the frames. -/
theorem Framed.assign (hframed : Framed names store frames) (hsound : names.Sound)
    (hname : '#' ∉ name.toList) (type : ValueType) (value : Value) :
    Framed (names.assign name type).2 (store.set (names.assign name type).1 value)
      (frames.assign name type value) := by
  unfold Names.assign Frames.assign
  cases hfind : names.find? name with
  | none =>
      rw [hframed.find?_none hfind]
      exact hframed.declare hsound hname type value
  | some declared =>
      obtain ⟨old, hold, _⟩ := hframed.find?_some hfind
      rw [hold]
      by_cases haccepts : declared.type.accepts type = true
      · simp only [haccepts, ↓reduceIte]
        exact hframed.update hsound hfind value
      · simp only [haccepts]
        exact hframed.declare hsound hname type value

theorem Framed.eraseAll (hframed : Framed names store frames) (hsound : names.Sound)
    {storages : List String} (hunissued : ∀ storage ∈ storages, ¬ names.Issued storage) :
    Framed names (store.eraseAll storages) frames :=
  forall₂_eraseAll hframed fun _ hmem storage hstorage huses =>
    hunissued storage hstorage (hsound.issued_of_uses hmem huses)

theorem Outer.eraseAll (houter : Outer names store frames) (hsound : names.Sound)
    {storages : List String} (hunissued : ∀ storage ∈ storages, ¬ names.Issued storage) :
    Outer names (store.eraseAll storages) frames :=
  forall₂_eraseAll houter fun _ hmem storage hstorage huses =>
    hunissued storage hstorage (hsound.issued_of_uses (List.mem_of_mem_tail hmem) huses)

end

theorem Binding.zip_append {first second : List (String × ValueType)} {values later : List Value}
    (hlength : values.length = first.length) :
    Binding.zip (first ++ second) (values ++ later) =
      Binding.zip first values ++ Binding.zip second later :=
  List.zipWith_append hlength.symm

theorem Framed.declareAll {names : Names} {store : Store} {frames : Frames}
    (hframed : Framed names store frames) {vars : List (String × ValueType)}
    {values : List Value} (hlength : values.length = vars.length)
    (hstored : ∀ pin ∈ (names.declareAll vars).1.zip values,
      store.get? pin.1 = some pin.2) :
    Framed (names.declareAll vars).2 store (frames.declareAll (Binding.zip vars values)) := by
  induction vars generalizing names frames values with
  | nil => exact hframed
  | cons first rest ih =>
      cases values with
      | nil => cases hlength
      | cons value values =>
          have hfirst := hframed.declare_of_stored first.2 (hstored _ List.mem_cons_self)
          exact ih hfirst (Nat.succ.inj hlength) fun pin hpin =>
            hstored pin (List.mem_cons_of_mem _ hpin)

end ChainExtract
