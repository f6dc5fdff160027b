import ChainExtract.Proofs.Resolution
import Mathlib.Order.Defs.Unbundled

/-! # Dispatch by types

Where a value of one type may stand for a value of another is a partial order on types, and so
it is on signatures. Hence a method to which a call has been resolved by the types of its values
takes these values, and all others that may stand in their places.
-/

namespace ChainExtract

namespace ValueType

variable {first second third : ValueType}

theorem accepts_trans (hfirst : first.accepts second = true)
    (hsecond : second.accepts third = true) : first.accepts third = true := by
  induction first, second using accepts.induct generalizing third with
  | case1 => rfl
  | case2 expected actual ih =>
      cases third with
      | list element => exact ih hfirst hsecond
      | _ => cases hsecond
  | case3 | case4 | case5 | case6 | case7 => exact hsecond
  | case8 => simp_all [accepts]

/-- Types that accept each other are the same, since only `any` accepts types of other forms. -/
theorem accepts_antisymm (hfirst : first.accepts second = true)
    (hsecond : second.accepts first = true) : first = second := by
  induction first generalizing second with
  | list element ih =>
      cases second with
      | list other => rw [ih hfirst hsecond]
      | _ => cases hfirst
  | any =>
      cases second with
      | any => rfl
      | _ => cases hsecond
  | _ => cases second <;> first | rfl | cases hfirst

instance : IsPartialOrder ValueType fun expected actual => expected.accepts actual = true where
  refl := accepts_refl
  trans _ _ _ := accepts_trans
  antisymm _ _ := accepts_antisymm

end ValueType

section

variable {α β γ : Type} {R : α → β → Prop} {S : β → γ → Prop} {T : α → γ → Prop}

/-- Relations of lists item by item compose as the relations of their items do. -/
theorem forall₂_trans (htrans : ∀ a b c, R a b → S b c → T a c) {first : List α}
    {second : List β} {third : List γ} (hfirst : List.Forall₂ R first second)
    (hsecond : List.Forall₂ S second third) : List.Forall₂ T first third := by
  induction hfirst generalizing third with
  | nil =>
      cases hsecond
      exact .nil
  | cons hhead _ ih =>
      rcases hsecond with _ | ⟨hnext, hrest⟩
      exact .cons (htrans _ _ _ hhead hnext) (ih hrest)

theorem forall₂_antisymm {R : α → α → Prop} [Std.Antisymm R] {first second : List α}
    (hfirst : List.Forall₂ R first second) (hsecond : List.Forall₂ R second first) :
    first = second := by
  induction hfirst with
  | nil => rfl
  | cons hhead _ ih =>
      rcases hsecond with _ | ⟨hback, hrest⟩
      rw [Std.Antisymm.antisymm _ _ hhead hback, ih hrest]

/-- A list is related to itself with one item replaced, if the item is to its replacement. -/
theorem forall₂_self_set {R : α → α → Prop} [Std.Refl R] (items : List α) (index : Nat) {item : α}
    (hitem : ∀ replaced ∈ items[index]?, R replaced item) :
    List.Forall₂ R items (items.set index item) := by
  induction items generalizing index with
  | nil => exact .nil
  | cons first rest ih =>
      cases index with
      | zero => exact .cons (hitem first rfl) (List.forall₂_refl rest)
      | succ index => exact .cons (Std.Refl.refl first) (ih index hitem)

end

namespace Signature

variable {first second third : Signature}

theorem accepts_trans (hfirst : first.accepts second = true)
    (hsecond : second.accepts third = true) : first.accepts third = true := by
  obtain ⟨hname, hparameters⟩ := accepts_iff.mp hfirst
  obtain ⟨hcalled, harguments⟩ := accepts_iff.mp hsecond
  apply accepts_iff.mpr
  refine ⟨hname.trans hcalled, forall₂_trans ?_ hparameters harguments⟩
  exact fun _ _ _ => ValueType.accepts_trans

theorem accepts_antisymm (hfirst : first.accepts second = true)
    (hsecond : second.accepts first = true) : first = second := by
  obtain ⟨hname, hparameters⟩ := accepts_iff.mp hfirst
  obtain ⟨_, hback⟩ := accepts_iff.mp hsecond
  have hsame : first.parameters = second.parameters := forall₂_antisymm hparameters hback
  cases first
  cases second
  congr

instance : IsPartialOrder Signature fun method call => method.accepts call = true where
  refl := accepts_refl
  trans _ _ _ := accepts_trans
  antisymm _ _ := accepts_antisymm

end Signature

theorem Library.accepts_of_resolve {library : Library} {call : Signature} {method : Method}
    (hresolve : library.resolve call = .ok method) : method.signature.accepts call = true := by
  unfold resolve at hresolve
  split at hresolve
  next exact hexact =>
    cases hresolve
    have hsame : method.signature = call := by simpa using List.find?_some hexact
    rw [hsame]
    exact call.accepts_refl
  next =>
    split at hresolve
    · cases hresolve
    next only honly =>
      cases hresolve
      have hmem : method ∈ library.candidates call := by simp [honly]
      exact (List.mem_filter.mp hmem).2
    · cases hresolve

/-- The first value may be replaced by the second, going by its type. -/
def Value.ReplaceableBy (value other : Value) : Prop := value.type.accepts other.type = true

instance : Std.Refl Value.ReplaceableBy := ⟨fun value => value.type.accepts_refl⟩

namespace Method

variable {method : Method} {values : List Value}

/-- No argument is refused where each is of a type that its parameter accepts. -/
theorem mismatch?_eq_none_iff : method.mismatch? values = none ↔
    ∀ {expected : ValueType} {value : Value},
      (expected, value) ∈ method.signature.parameters.zip values →
        expected.accepts value.type = true := by
  rw [mismatch?, Option.map_eq_none_iff, List.find?_eq_none]
  constructor
  · intro haccepts expected value hpair
    obtain ⟨position, hposition⟩ := List.mem_iff_getElem?.mp hpair
    simpa using haccepts _ (List.mk_mem_zipIdx_iff_getElem?.mpr hposition)
  · rintro haccepts ⟨⟨expected, value⟩, position⟩ hpair
    simpa using haccepts (List.fst_mem_of_mem_zipIdx hpair)

/-- A method takes values as many as its parameters, each of a type that its parameter accepts. -/
theorem validate_eq_ok_iff : method.validate values = .ok () ↔
    List.Forall₂ (fun expected (value : Value) => expected.accepts value.type = true)
      method.signature.parameters values := by
  rw [List.forall₂_iff_zip, ← mismatch?_eq_none_iff]
  by_cases hlength : values.length = method.signature.parameters.length
  · cases hmismatch : method.mismatch? values <;> simp [validate, hlength, hmismatch]
  · simp [validate, hlength, eq_comm]

/-- A method to which a call has been resolved by the types of values takes all values that may
stand in the places of these. -/
theorem validate_of_replaceable {library : Library} {name : String} {others : List Value}
    (hresolve : library.resolve ⟨name, values.map Value.type⟩ = .ok method)
    (hothers : List.Forall₂ Value.ReplaceableBy values others) :
    method.validate others = .ok () := by
  obtain ⟨_, haccepts⟩ := Signature.accepts_iff.mp (Library.accepts_of_resolve hresolve)
  rw [List.forall₂_map_right_iff] at haccepts
  apply validate_eq_ok_iff.mpr
  apply forall₂_trans _ haccepts hothers
  exact fun _ _ _ => ValueType.accepts_trans

end Method

/-- Types and signatures are partially ordered by what they accept. A method to which a call has
been resolved by the types of its values takes these values, and it takes them with any one, or
several, replaced by values of types that the types of the replaced ones accept. -/
theorem Library.validate_of_resolve_types :
    IsPartialOrder ValueType (fun expected actual => expected.accepts actual = true) ∧
      IsPartialOrder Signature (fun method call => method.accepts call = true) ∧
      ∀ (library : Library) (name : String) (values : List Value) (method : Method),
        library.resolve ⟨name, values.map Value.type⟩ = .ok method →
          method.validate values = .ok () ∧
            (∀ (index : Nat) (other : Value),
              (∀ value ∈ values[index]?, value.ReplaceableBy other) →
                method.validate (values.set index other) = .ok ()) ∧
            ∀ others : List Value, List.Forall₂ Value.ReplaceableBy values others →
              method.validate others = .ok () := by
  refine ⟨inferInstance, inferInstance, fun library name values method hresolve => ?_⟩
  refine ⟨?_, fun index other hother => ?_, fun others hothers => ?_⟩
  · exact Method.validate_of_replaceable hresolve (List.forall₂_refl values)
  · exact Method.validate_of_replaceable hresolve (forall₂_self_set values index hother)
  · exact Method.validate_of_replaceable hresolve hothers

/-- A search in a list of mixed content, and then in a list of empty lists. -/
theorem Library.validate_of_resolve_types_mixed :
    standard.resolve ⟨"contains", [.list .any, .list .any]⟩ = .ok (.ofBuiltin .contains) ∧
      (Method.ofBuiltin .contains).validate [.list [.int 1, .str "a"], .list []] = .ok () ∧
      (Method.ofBuiltin .contains).validate [.list [.list []], .list []] = .ok () := by
  have hresolve : standard.resolve ⟨"contains",
      [Value.list [.int 1, .str "a"], .list []].map Value.type⟩ = .ok (.ofBuiltin .contains) := rfl
  obtain ⟨hvalues, hreplaced, _⟩ := validate_of_resolve_types.2.2 _ _ _ _ hresolve
  refine ⟨hresolve, hvalues, hreplaced 0 (.list [.list []]) ?_⟩
  rintro value ⟨⟩
  rfl

end ChainExtract
