import ChainExtract.Plan.Fields
import ChainExtract.Proofs.Documents.Trees
import Mathlib.Data.List.Nodup

/-! # Readings of the fields of a part

What a reading that succeeds says about the parts it has read: no fault is left, no entry is
passed over, and each is of a kind that the reading knows.
-/

namespace ChainExtract

variable {α β : Type}

theorem eq_ok_of_mapError {ε ε' : Type} {f : ε → ε'} {x : Except ε α} {a : α}
    (hok : x.mapError f = .ok a) : x = .ok a := by
  cases x with
  | error => cases hok
  | ok =>
      cases hok
      rfl

namespace Reading

/-- The reading finds what it looks for in the tree. -/
def Takes (read : JsonTree → Reading α) (tree : JsonTree) : Prop := ∃ a, read tree = .ok a

variable {read : JsonTree → Reading α} {tree : JsonTree}

theorem eq_ok_of_under {step : PlanStep} {reading : Reading α} {a : α}
    (hok : under step reading = .ok a) : reading = .ok a :=
  eq_ok_of_mapError hok

theorem eq_ok_of_ending {broken : JsonEnding} {result a : α}
    (hok : ending broken result = .ok a) : broken = .closed ∧ result = a := by
  cases broken <;> cases hok
  exact ⟨rfl, rfl⟩

theorem takes_string (htakes : Takes string tree) : ∃ s, tree = .scalar (.string s) := by
  obtain ⟨_, hok⟩ := htakes
  unfold string at hok
  split at hok <;> cases hok
  exact ⟨_, rfl⟩

theorem takes_bool (htakes : Takes bool tree) : ∃ b, tree = .scalar (.bool b) := by
  obtain ⟨_, hok⟩ := htakes
  unfold bool at hok
  split at hok <;> cases hok
  exact ⟨_, rfl⟩

theorem takes_nullable (htakes : Takes (nullable read) tree) :
    tree = .scalar .null ∨ Takes read tree := by
  obtain ⟨_, hok⟩ := htakes
  unfold nullable at hok
  split at hok
  · exact .inl rfl
  · cases hread : read tree with
    | error => rw [hread] at hok; cases hok
    | ok a => exact .inr ⟨a, hread⟩

theorem takes_of_items {index : Nat} {trees : List JsonTree} {as : List α}
    (hok : items read index trees = .ok as) : ∀ tree ∈ trees, Takes read tree := by
  induction trees generalizing index as with
  | nil => simp
  | cons tree trees ih =>
      obtain ⟨a, hfirst, hothers⟩ := exists_of_bind_ok hok
      obtain ⟨later, hlater, _⟩ := exists_of_bind_ok hothers
      exact List.forall_mem_cons.mpr ⟨⟨a, eq_ok_of_under hfirst⟩, ih hlater⟩

theorem takes_list (htakes : Takes (list read) tree) :
    ∃ trees, tree = .list trees .closed ∧ ∀ tree ∈ trees, Takes read tree := by
  obtain ⟨as, hok⟩ := htakes
  unfold list at hok
  split at hok
  next trees broken =>
    obtain ⟨_, hitems, hending⟩ := exists_of_bind_ok hok
    obtain ⟨rfl, _⟩ := eq_ok_of_ending hending
    exact ⟨trees, rfl, takes_of_items hitems⟩
  next => cases hok

theorem list_singleton {a : α} (hread : read tree = .ok a) :
    list read (.list [tree] .closed) = .ok [a] := by
  simp only [list, items, hread]
  rfl

theorem takes_of_members {members : List (String × JsonTree)} {as : List (String × α)}
    (hok : Reading.members read members = .ok as) : ∀ member ∈ members, Takes read member.2 := by
  induction members generalizing as with
  | nil => simp
  | cons member members ih =>
      obtain ⟨a, hfirst, hothers⟩ := exists_of_bind_ok hok
      obtain ⟨later, hlater, _⟩ := exists_of_bind_ok hothers
      exact List.forall_mem_cons.mpr ⟨⟨a, eq_ok_of_under hfirst⟩, ih hlater⟩

theorem takes_record (htakes : Takes (record read) tree) :
    ∃ members, tree = .record members .closed ∧ ∀ member ∈ members, Takes read member.2 := by
  obtain ⟨as, hok⟩ := htakes
  unfold record at hok
  split at hok
  next trees broken =>
    obtain ⟨_, hmembers, hending⟩ := exists_of_bind_ok hok
    obtain ⟨rfl, _⟩ := eq_ok_of_ending hending
    exact ⟨trees, rfl, takes_of_members hmembers⟩
  all_goals cases hok

/-- A choice is an object with nothing but the name of a kind, or the name alone. -/
theorem takes_choice {pick : String → Option (Option JsonTree → Reading α)}
    (htakes : Takes (choice pick) tree) :
    (∃ name read content, tree = .record [(name, content)] .closed ∧ pick name = some read ∧
      Takes (fun tree => read (some tree)) content) ∨
    ∃ name read a, tree = .scalar (.string name) ∧ pick name = some read ∧ read none = .ok a := by
  obtain ⟨a, hok⟩ := htakes
  unfold choice at hok
  split at hok
  next =>
    split at hok <;> cases hok
  next name content further broken =>
    split at hok
    next => cases hok
    next read hpick =>
      obtain ⟨b, hread, hlast⟩ := exists_of_bind_ok hok
      split at hlast <;> cases hlast
      exact .inl ⟨name, read, content, rfl, hpick, a, eq_ok_of_under hread⟩
  next => cases hok
  next name =>
    split at hok
    next => cases hok
    next read hpick => exact .inr ⟨name, read, a, rfl, hpick, eq_ok_of_under hok⟩
  all_goals cases hok

end Reading

namespace Ranked

/-- There is a result. -/
def Succeeds (x : Ranked α) : Prop := ∃ a, x.result = .ok a

theorem succeeds_both {γ : Type} {f : α → β → γ} {x : Ranked α} {y : Ranked β}
    (hboth : (both f x y).Succeeds) : x.Succeeds ∧ y.Succeeds := by
  obtain ⟨_, hok⟩ := hboth
  unfold both at hok
  split at hok <;> cases hok
  exact ⟨⟨_, by assumption⟩, _, by assumption⟩

theorem succeeds_of_seq {f : Ranked (α → β)} {x : Ranked α} (hseq : (f <*> x).Succeeds) :
    f.Succeeds ∧ x.Succeeds :=
  succeeds_both hseq

theorem succeeds_of_map {f : α → β} {x : Ranked α} (hmap : (f <$> x).Succeeds) : x.Succeeds :=
  (succeeds_both hmap).2

theorem succeeds_of_ofReading {place : Nat} {reading : Reading α}
    (hsucceeds : (ofReading place reading).Succeeds) : ∃ a, reading = .ok a := by
  obtain ⟨a, hok⟩ := hsucceeds
  exact ⟨a, eq_ok_of_mapError hok⟩

theorem succeeds_of_reading {x : Ranked α} {a : α} (hok : x.reading = .ok a) : x.Succeeds :=
  ⟨a, eq_ok_of_mapError hok⟩

end Ranked

namespace Fields

variable {names : List String} {fields : Fields}

/-- What is given for a field of the name is such a tree. -/
def Gives (fields : Fields) (name : String) (P : JsonTree → Prop) : Prop :=
  ∀ field ∈ fields.given, field.name = name → P field.tree

/-- No name is given twice. -/
def Distinct (fields : Fields) : Prop := (fields.given.map (·.name)).Nodup

theorem gives_of_get {name : String} {absent : Option α} {read : JsonTree → Reading α}
    (hdistinct : fields.Distinct) (hget : (fields.get name absent read).Succeeds) :
    fields.Gives name (Reading.Takes read) := by
  intro field hfield hname
  have hfound : (fields.given.zipIdx.find? (·.1.name == name)).isSome := by
    rw [List.find?_isSome]
    obtain ⟨place, hplace⟩ := List.mem_iff_getElem?.mp hfield
    exact ⟨(field, place), List.mk_mem_zipIdx_iff_getElem?.mpr hplace, by simp [hname]⟩
  obtain ⟨⟨first, place⟩, hfirst⟩ := Option.isSome_iff_exists.mp hfound
  -- what is found first under the name is the field, as no other has the name
  have hsame : first = field := by
    have hfirstName : first.name = name := by simpa using List.find?_some hfirst
    have hmem := List.mem_iff_getElem?.mpr
      ⟨place, List.mk_mem_zipIdx_iff_getElem?.mp (List.mem_of_find?_eq_some hfirst)⟩
    exact List.inj_on_of_nodup_map hdistinct hmem hfield (hfirstName.trans hname.symm)
  subst hsame
  simp only [get, hfirst] at hget
  obtain ⟨a, hread⟩ := Ranked.succeeds_of_ofReading hget
  exact ⟨a, Reading.eq_ok_of_under hread⟩

theorem get_of_find {name : String} {absent : Option α} {read : JsonTree → Reading α}
    {field : GivenField} {place : Nat} {a : α}
    (hfind : fields.given.zipIdx.find? (·.1.name == name) = some (field, place))
    (hread : read field.tree = .ok a) : fields.get name absent read = pure a := by
  simp only [get, hfind, hread]
  rfl

theorem Gives.imp {name : String} {P Q : JsonTree → Prop} (hgives : fields.Gives name P)
    (himp : ∀ tree, P tree → Q tree) : fields.Gives name Q :=
  fun field hfield hname => himp _ (hgives field hfield hname)

/-- If all members of an object are taken for fields, they have different names, and only names of
fields. -/
theorem of_ofMembers {members : List (String × JsonTree)} {ending : JsonEnding}
    (hdistinct : fields.Distinct)
    (hfault : (ofMembers names fields members ending).fault? = none) :
    ending = .closed ∧ (ofMembers names fields members ending).Distinct ∧
      members.map (·.1) ⊆ names ∧
      (ofMembers names fields members ending).given =
        fields.given ++ members.map fun (name, tree) => ⟨name, .member name, tree⟩ := by
  induction members generalizing fields with
  | nil =>
      cases ending <;> cases hfault
      exact ⟨rfl, hdistinct, by simp, by simp [ofMembers]⟩
  | cons member members ih =>
      obtain ⟨name, tree⟩ := member
      rw [ofMembers] at hfault ⊢
      split at hfault
      next => cases hfault
      next hname =>
        split at hfault
        next => cases hfault
        next hnew =>
          rw [if_neg hname, if_neg hnew]
          have hlonger : Fields.Distinct
              { fields with given := fields.given ++ [⟨name, .member name, tree⟩] } := by
            have hfresh : ∀ field ∈ fields.given, field.name ≠ name := by
              simpa [has] using hnew
            simpa [Distinct, List.nodup_append] using ⟨hdistinct, hfresh⟩
          obtain ⟨hclosed, hdistinctAll, hknown, hgiven⟩ := ih hlonger hfault
          refine ⟨hclosed, hdistinctAll, ?_, by simp [hgiven]⟩
          have hmem : name ∈ names := by simpa using hname
          exact List.cons_subset.mpr ⟨hmem, hknown⟩

/-- If all items of a list are taken for fields, there are no more items than fields. -/
theorem of_ofItems {items : List JsonTree} {ending : JsonEnding} (hnames : names.Nodup)
    (hfault : (ofItems names items ending).fault? = none) :
    ending = .closed ∧ (ofItems names items ending).Distinct ∧ items.length ≤ names.length ∧
      ∀ field ∈ names.zip items, ∃ given ∈ (ofItems names items ending).given,
        given.name = field.1 ∧ given.tree = field.2 := by
  simp only [ofItems] at hfault
  split at hfault
  next => cases hfault
  next hlength =>
    have hclosed : ending = .closed := by
      cases ending <;> first | rfl | cases hfault
    have hfew : items.length ≤ names.length := Nat.le_of_not_lt hlength
    refine ⟨hclosed, ?_, hfew, fun field hfield => ?_⟩
    · have hgiven : (ofItems names items ending).given.map (·.name) =
          (names.zip items).map (·.1) :=
        List.ext_getElem? fun index => by simp [ofItems, Function.comp_def]
      rw [Distinct, hgiven, List.zip_eq_zip_take_min, Nat.min_eq_right hfew, List.map_fst_zip
        (by simp only [List.length_take]; omega)]
      exact hnames.sublist (List.take_sublist _ _)
    · obtain ⟨index, hindex⟩ := List.mem_iff_getElem?.mp hfield
      refine ⟨⟨field.1, .item index, field.2⟩, ?_, rfl, rfl⟩
      simp only [ofItems]
      rw [List.mem_iff_getElem?]
      exact ⟨index, by simp [hindex]⟩

/-- What is given for the fields of a part that is read. -/
def Reads (names : List String) (P : String → JsonTree → Prop) (tree : JsonTree) : Prop :=
  (∃ members, tree = .record members .closed ∧ members.map (·.1) ⊆ names ∧
    ∀ member ∈ members, P member.1 member.2) ∨
  ∃ items, tree = .list items .closed ∧ items.length ≤ names.length ∧
    ∀ field ∈ names.zip items, P field.1 field.2

/-- A part with fields is an object with names of fields only, or a list with no more items than
fields. What it gives for the fields is what they are read from. -/
theorem reads_of_takes {part : Fields → Ranked α} {tree : JsonTree}
    {P : String → JsonTree → Prop} (hnames : names.Nodup)
    (hpart : ∀ fields : Fields, fields.Distinct → (part fields).Succeeds →
      ∀ name ∈ names, fields.Gives name (P name))
    (htakes : Reading.Takes (read names part) tree) : Reads names P tree := by
  obtain ⟨a, hok⟩ := htakes
  obtain ⟨fields, hfields, hread⟩ := exists_of_bind_ok hok
  obtain ⟨hsucceeds, hending⟩ := Ranked.succeeds_both (Ranked.succeeds_of_reading hread)
  have hfault : fields.fault? = none := by
    cases hfault : fields.fault? with
    | none => rfl
    | some fault =>
        rw [hfault] at hending
        obtain ⟨_, herror⟩ := Ranked.succeeds_of_ofReading hending
        cases herror
  unfold ofTree at hfields
  split at hfields
  next members ending =>
    cases hfields
    obtain ⟨rfl, hdistinct, hknown, hgiven⟩ := of_ofMembers (by simp [Distinct]) hfault
    refine .inl ⟨members, rfl, hknown, fun member hmember => ?_⟩
    have hname : member.1 ∈ names := hknown (List.mem_map_of_mem hmember)
    refine hpart _ hdistinct hsucceeds _ hname ⟨member.1, .member member.1, member.2⟩ ?_ rfl
    rw [hgiven]
    exact List.mem_append_right _ (List.mem_map_of_mem hmember)
  next items ending =>
    cases hfields
    obtain ⟨rfl, hdistinct, hlength, hgiven⟩ := of_ofItems hnames hfault
    refine .inr ⟨items, rfl, hlength, fun field hfield => ?_⟩
    obtain ⟨given, hmem, hname, htree⟩ := hgiven field hfield
    rw [← hname, ← htree]
    exact hpart _ hdistinct hsucceeds _ (hname ▸ (List.of_mem_zip hfield).1) given hmem rfl
  all_goals cases hfields

theorem read_of_part {part : Fields → Ranked α} {tree : JsonTree} {a : α}
    (htree : ofTree names tree = .ok fields) (hclosed : fields.fault? = none)
    (hpart : part fields = pure a) : read names part tree = .ok a := by
  simp only [read, htree, bind, Except.bind, hclosed, hpart]
  rfl

end Fields

end ChainExtract
