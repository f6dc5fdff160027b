import ChainExtract.Plan.Compile
import ChainExtract.Proofs.Numerals
import Mathlib.Data.List.Basic
import Mathlib.Tactic.Common

/-! # Storage names

The compilation gives each declaration a storage name of its own. A storage name
can be read back: names of a plan do not contain the mark that separates a name
from the count of its declaration, so different declarations never share one.
-/

namespace ChainExtract

namespace Names

theorem toList_storageName (name : String) {count : Nat} (hcount : count ≠ 0) :
    (storageName name count).toList = name.toList ++ '#' :: Numeral.digits 10 count := by
  rw [storageName, if_neg hcount]
  show (name ++ "#" ++ Numeral.decimal count).toList = _
  simp [Numeral.toList_decimal]

/-- The last mark of a generated name ends the name of the declaration. -/
theorem generated_injective {name other : String} {count place : Nat} (hcount : count ≠ 0)
    (hplace : place ≠ 0) (hsame : storageName name count = storageName other place) :
    name = other ∧ count = place := by
  have hlists := congrArg String.toList hsame
  rw [toList_storageName name hcount, toList_storageName other hplace] at hlists
  have hmark (n : Nat) : '#' ∉ Numeral.digits 10 n := Numeral.notMem_digits (by decide) n
  obtain ⟨hnames, hdigits⟩ := Numeral.append_mark_inj (hmark count) (hmark place) hlists
  exact ⟨String.toList_inj.mp hnames, Numeral.digits_injective hdigits⟩

/-- A storage name tells the name and the count of its declaration. -/
theorem storageName_injective {name other : String} {count place : Nat}
    (hname : '#' ∉ name.toList) (hother : '#' ∉ other.toList)
    (hsame : storageName name count = storageName other place) :
    name = other ∧ count = place := by
  have hlists := congrArg String.toList hsame
  by_cases hcount : count = 0 <;> by_cases hplace : place = 0
  · exact ⟨by simpa [storageName, hcount, hplace] using hsame, hcount.trans hplace.symm⟩
  · rw [toList_storageName other hplace, hcount, show storageName name 0 = name from rfl] at hlists
    exact absurd (hlists ▸ List.mem_append_right _ List.mem_cons_self) hname
  · rw [toList_storageName name hcount, hplace, show storageName other 0 = other from rfl] at hlists
    exact absurd (hlists ▸ List.mem_append_right _ List.mem_cons_self) hother
  · exact generated_injective hcount hplace hsame

/-- A frame holds a variable under a storage name. -/
def Uses (frame : Keyed String Declared) (storage : String) : Prop :=
  ∃ name declared, frame.get? name = some declared ∧ declared.storage = storage

/-- A storage name has been given to a declaration. -/
def Issued (names : Names) (storage : String) : Prop :=
  ∃ name count, '#' ∉ name.toList ∧ storage = storageName name count ∧ count < names.count name

/-- The invariant of the compilation: visible variables have storage names that were given
to declarations of their names, and no two frames share one. -/
structure Sound (names : Names) : Prop where
  issued : ∀ frame ∈ names.frames, ∀ name declared, frame.get? name = some declared →
    '#' ∉ name.toList ∧
      ∃ count, declared.storage = storageName name count ∧ count < names.count name
  distinct : names.frames.Pairwise fun inner outer =>
    ∀ storage, Uses inner storage → ¬ Uses outer storage

theorem sound_empty : ({} : Names).Sound where
  issued := by simp [Keyed.get?]
  distinct := by simp

theorem Sound.issued_of_uses {names : Names} (hsound : names.Sound)
    {frame : Keyed String Declared} (hframe : frame ∈ names.frames) {storage : String}
    (huses : Uses frame storage) : names.Issued storage := by
  obtain ⟨name, declared, hget, rfl⟩ := huses
  obtain ⟨hname, count, hstorage, hcount⟩ := hsound.issued frame hframe name declared hget
  exact ⟨name, count, hname, hstorage, hcount⟩

theorem Sound.name_eq {names : Names} (hsound : names.Sound) {frame : Keyed String Declared}
    (hframe : frame ∈ names.frames) {name other : String} {declared second : Declared}
    (hget : frame.get? name = some declared) (hother : frame.get? other = some second)
    (hsame : declared.storage = second.storage) : name = other := by
  obtain ⟨hname, count, hstorage, _⟩ := hsound.issued frame hframe name declared hget
  obtain ⟨hplain, place, hplace, _⟩ := hsound.issued frame hframe other second hother
  rw [hstorage, hplace] at hsame
  exact (storageName_injective hname hplain hsame).1

section Declare

variable {names : Names} {name : String} {type : ValueType}

theorem count_declare_self : (names.declare name type).2.count name = names.count name + 1 := by
  simp [declare, count, Keyed.set, Keyed.get?_update_self]

theorem count_declare_of_ne {other : String} (hne : name ≠ other) :
    (names.declare name type).2.count other = names.count other := by
  simp [declare, count, Keyed.set, Keyed.get?_update_of_ne _ hne]

theorem count_le_count_declare (other : String) :
    names.count other ≤ (names.declare name type).2.count other := by
  by_cases hsame : name = other
  · rw [← hsame, count_declare_self]
    omega
  · exact Nat.le_of_eq (count_declare_of_ne hsame).symm

theorem tail_frames_declare : (names.declare name type).2.frames.tail = names.frames.tail := by
  unfold declare
  cases names.frames <;> rfl

/-- A new declaration gets a storage name that was not given before. -/
theorem not_issued_declare (hname : '#' ∉ name.toList) :
    ¬ names.Issued (storageName name (names.count name)) := by
  rintro ⟨other, count, hother, hstorage, hcount⟩
  obtain ⟨rfl, rfl⟩ := storageName_injective hname hother hstorage
  omega

theorem issued_declare (hname : '#' ∉ name.toList) :
    (names.declare name type).2.Issued (storageName name (names.count name)) :=
  ⟨name, names.count name, hname, rfl, by rw [count_declare_self]; omega⟩

theorem Sound.issued_of_find? (hsound : names.Sound) {declared : Declared}
    (hfind : names.find? name = some declared) : names.Issued declared.storage := by
  obtain ⟨frame, hframe, hget⟩ := List.exists_of_findSome?_eq_some hfind
  exact hsound.issued_of_uses hframe ⟨name, declared, hget, rfl⟩

theorem Sound.issued_assign (hsound : names.Sound) (hname : '#' ∉ name.toList) :
    (names.assign name type).2.Issued (names.assign name type).1 := by
  unfold assign
  split
  next declared hfind =>
    split
    · exact hsound.issued_of_find? hfind
    · exact issued_declare hname
  · exact issued_declare hname

theorem Sound.declare (hsound : names.Sound) (hname : '#' ∉ name.toList) :
    (names.declare name type).2.Sound := by
  -- counts only grow, so that old storage names stay issued
  have hkept : ∀ frame ∈ names.frames, ∀ other declared, frame.get? other = some declared →
      '#' ∉ other.toList ∧ ∃ count, declared.storage = storageName other count ∧
        count < (names.declare name type).2.count other := by
    intro frame hframe other declared hget
    obtain ⟨hother, count, hstorage, hcount⟩ := hsound.issued frame hframe other declared hget
    exact ⟨hother, count, hstorage, Nat.lt_of_lt_of_le hcount (count_le_count_declare other)⟩
  have hfresh (frame : Keyed String Declared) (hframe : frame ∈ names.frames) :
      ¬ Uses frame (storageName name (names.count name)) :=
    fun huses => not_issued_declare hname (hsound.issued_of_uses hframe huses)
  have hdistinct := hsound.distinct
  cases hframes : names.frames with
  | nil => exact ⟨by simp [Names.declare, hframes], by simp [Names.declare, hframes]⟩
  | cons frame outer =>
      rw [hframes] at hkept hfresh hdistinct
      obtain ⟨hframe, houter⟩ := List.pairwise_cons.mp hdistinct
      have hafter : (names.declare name type).2.frames =
          frame.set name ⟨storageName name (names.count name), type⟩ :: outer := by
        simp [Names.declare, hframes]
      refine ⟨?_, ?_⟩
      · intro other hmem place declared hget
        rw [hafter] at hmem
        rcases List.mem_cons.mp hmem with rfl | hmem
        · rcases Keyed.get?_set_eq_some hget with ⟨rfl, rfl⟩ | ⟨_, hold⟩
          · exact ⟨hname, names.count place, rfl, by rw [count_declare_self]; omega⟩
          · exact hkept frame List.mem_cons_self place declared hold
        · exact hkept other (List.mem_cons_of_mem _ hmem) place declared hget
      · rw [hafter, List.pairwise_cons]
        refine ⟨?_, houter⟩
        rintro other hother storage ⟨place, declared, hget, rfl⟩
        rcases Keyed.get?_set_eq_some hget with ⟨_, rfl⟩ | ⟨_, hold⟩
        · exact hfresh other (List.mem_cons_of_mem _ hother)
        · exact hframe other hother _ ⟨place, declared, hold, rfl⟩

end Declare

/-- The compilation of a part of a body leads from some names to others: it keeps the
invariant, declares only in the innermost frame, and takes no storage name back. -/
structure Advances (before after : Names) : Prop where
  sound : after.Sound
  tail : after.frames.tail = before.frames.tail
  count_le : ∀ name, before.count name ≤ after.count name

theorem Advances.refl {names : Names} (hsound : names.Sound) : names.Advances names :=
  ⟨hsound, rfl, fun _ => Nat.le_refl _⟩

theorem Advances.trans {first second third : Names} (hfirst : first.Advances second)
    (hsecond : second.Advances third) : first.Advances third :=
  ⟨hsecond.sound, hsecond.tail.trans hfirst.tail,
    fun name => Nat.le_trans (hfirst.count_le name) (hsecond.count_le name)⟩

theorem Advances.issued {before after : Names} (hadvances : before.Advances after)
    {storage : String} (hissued : before.Issued storage) : after.Issued storage := by
  obtain ⟨name, count, hname, hstorage, hcount⟩ := hissued
  exact ⟨name, count, hname, hstorage, Nat.lt_of_lt_of_le hcount (hadvances.count_le name)⟩

theorem Sound.advances_declare {names : Names} (hsound : names.Sound) {name : String}
    (hname : '#' ∉ name.toList) (type : ValueType) :
    names.Advances (names.declare name type).2 :=
  ⟨hsound.declare hname, tail_frames_declare, count_le_count_declare⟩

theorem Sound.advances_assign {names : Names} (hsound : names.Sound) {name : String}
    (hname : '#' ∉ name.toList) (type : ValueType) :
    names.Advances (names.assign name type).2 := by
  unfold assign
  split
  · split
    · exact .refl hsound
    · exact hsound.advances_declare hname type
  · exact hsound.advances_declare hname type

theorem Sound.enter {names : Names} (hsound : names.Sound) : names.enter.Sound := by
  refine ⟨?_, ?_⟩
  · intro frame hframe name declared hget
    rcases List.mem_cons.mp hframe with rfl | hframe
    · simp [Keyed.get?] at hget
    · exact hsound.issued frame hframe name declared hget
  · refine List.pairwise_cons.mpr ⟨?_, hsound.distinct⟩
    rintro frame _ storage ⟨name, declared, hget, _⟩
    simp [Keyed.get?] at hget

/-- A body that has been compiled leaves the frames around it as they were. -/
theorem Advances.leave {names inner : Names} (hadvances : names.enter.Advances inner) :
    names.Advances inner.leave ∧ inner.leave.frames = names.frames := by
  have hframes : inner.leave.frames = names.frames := hadvances.tail
  refine ⟨⟨⟨?_, ?_⟩, by rw [hframes], hadvances.count_le⟩, hframes⟩
  · intro frame hframe
    exact hadvances.sound.issued frame (List.mem_of_mem_tail hframe)
  · exact hadvances.sound.distinct.tail

/-- Declares variables in order: their storage names, and the names after that. -/
def declareAll (names : Names) : List (String × ValueType) → List String × Names
  | [] => ([], names)
  | (name, type) :: rest =>
    ((names.declare name type).1 :: ((names.declare name type).2.declareAll rest).1,
      ((names.declare name type).2.declareAll rest).2)

section DeclareAll

variable {names : Names} {vars : List (String × ValueType)}

theorem length_declareAll : (names.declareAll vars).1.length = vars.length := by
  induction vars generalizing names with
  | nil => rfl
  | cons first rest ih => simp [declareAll, ih]

theorem declareAll_append (first second : List (String × ValueType)) :
    names.declareAll (first ++ second) =
      ((names.declareAll first).1 ++ ((names.declareAll first).2.declareAll second).1,
        ((names.declareAll first).2.declareAll second).2) := by
  induction first generalizing names with
  | nil => rfl
  | cons declared rest ih => simp [declareAll, ih]

theorem Sound.advances_declareAll (hsound : names.Sound)
    (hplain : ∀ declared ∈ vars, '#' ∉ declared.1.toList) :
    names.Advances (names.declareAll vars).2 := by
  induction vars generalizing names with
  | nil => exact .refl hsound
  | cons first rest ih =>
      have hfirst := hsound.advances_declare (hplain first List.mem_cons_self) first.2
      exact hfirst.trans (ih hfirst.sound fun declared hmem =>
        hplain declared (List.mem_cons_of_mem _ hmem))

/-- The storage names are new, and they are all given afterwards. -/
theorem Sound.declareAll_fresh (hsound : names.Sound)
    (hplain : ∀ declared ∈ vars, '#' ∉ declared.1.toList) {storage : String}
    (hstorage : storage ∈ (names.declareAll vars).1) :
    ¬ names.Issued storage ∧ (names.declareAll vars).2.Issued storage := by
  induction vars generalizing names with
  | nil => cases hstorage
  | cons first rest ih =>
      have hname := hplain first List.mem_cons_self
      have hrest : ∀ declared ∈ rest, '#' ∉ declared.1.toList :=
        fun declared hmem => hplain declared (List.mem_cons_of_mem _ hmem)
      have hfirst := hsound.advances_declare hname first.2
      rcases List.mem_cons.mp hstorage with rfl | hlater
      · exact ⟨not_issued_declare hname,
          (hfirst.sound.advances_declareAll hrest).issued (issued_declare hname)⟩
      · obtain ⟨hfresh, hissued⟩ := ih hfirst.sound hrest hlater
        exact ⟨fun h => hfresh (hfirst.issued h), hissued⟩

theorem Sound.nodup_declareAll (hsound : names.Sound)
    (hplain : ∀ declared ∈ vars, '#' ∉ declared.1.toList) :
    (names.declareAll vars).1.Nodup := by
  induction vars generalizing names with
  | nil => exact List.nodup_nil
  | cons first rest ih =>
      have hname := hplain first List.mem_cons_self
      have hrest : ∀ declared ∈ rest, '#' ∉ declared.1.toList :=
        fun declared hmem => hplain declared (List.mem_cons_of_mem _ hmem)
      have hfirst := hsound.advances_declare hname first.2
      refine List.nodup_cons.mpr ⟨fun hmem => ?_, ih hfirst.sound hrest⟩
      exact (hfirst.sound.declareAll_fresh hrest hmem).1 (issued_declare hname)

end DeclareAll

end Names

end ChainExtract
