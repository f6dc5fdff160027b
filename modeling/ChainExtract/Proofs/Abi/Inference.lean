import ChainExtract.Node.Calls
import ChainExtract.Proofs.Abi.Acceptance
import Mathlib.Data.List.Basic

/-! # Inferred contract types

A list is encoded after its first element. All elements of a list without mixed content have the
type of the first, but the contract type of an integer hangs on its sign. So a value is encoded
if its first integer is negative or none is.
-/

namespace ChainExtract

/-- A type of values in which all lists have elements, and elements of one type. -/
def ValueType.AnyFree : ValueType → Prop
  | any => False
  | list element => element.AnyFree
  | bool | int | string | bytes | address => True

namespace Value

mutual

/-- The integers in a value, from the left to the right. -/
def integers : Value → List Int
  | int value => [value]
  | list items => integersOf items
  | bool _ | str _ | bytes _ | addr _ => []

def integersOf : List Value → List Int
  | [] => []
  | item :: items => item.integers ++ integersOf items

end

@[simp] theorem integersOf_eq_flatMap (items : List Value) :
    integersOf items = items.flatMap integers := by
  induction items with
  | nil => rfl
  | cons item items ih => rw [integersOf, ih, List.flatMap_cons]

theorem mem_integers_list {items : List Value} {n : Int} :
    n ∈ (list items).integers ↔ ∃ item ∈ items, n ∈ item.integers := by
  rw [integers, integersOf_eq_flatMap, List.mem_flatMap]

/-- The integers of a value are signed numbers of a word. -/
def InSignedRange (value : Value) : Prop :=
  ∀ n ∈ value.integers, -(Nat.pow 2 255 : Int) ≤ n ∧ n < Nat.pow 2 255

/-- If an integer of the value is negative, then so is the first. -/
def NegativeFirst (value : Value) : Prop :=
  ∀ n ∈ value.integers, n < 0 → ∃ first ∈ value.integers.head?, first < 0

/-- Lists of a type without `any` have a first element, and all their elements have one type. -/
theorem exists_of_type_eq_list {value : Value} {element : ValueType}
    (htype : value.type = .list element) (hfree : element.AnyFree) :
    ∃ first rest, value = list (first :: rest) ∧ ∀ item ∈ first :: rest, item.type = element := by
  cases value with
  | list items =>
      rw [type, types_eq_map] at htype
      have hcommon : ValueType.common (items.map type) = element := ValueType.list.inj htype
      cases items with
      | nil =>
          subst hcommon
          exact hfree.elim
      | cons first rest =>
          rw [List.map_cons, ValueType.common] at hcommon
          split at hcommon
          next hall =>
            refine ⟨first, rest, rfl, List.forall_mem_cons.mpr ⟨hcommon, fun item hitem => ?_⟩⟩
            have hsame : item.type = first.type := by
              simpa using List.all_eq_true.mp hall _ (List.mem_map_of_mem hitem)
            exact hsame.trans hcommon
          next =>
            subst hcommon
            exact hfree.elim
  | _ => cases htype

/-- Whether there are integers in a value is known from its type. -/
theorem integers_eq_nil_of_type_eq {type : ValueType} (hfree : type.AnyFree) {first second : Value}
    (hfirst : first.type = type) (hsecond : second.type = type) (hnone : first.integers = []) :
    second.integers = [] := by
  induction type generalizing first second with
  | any => exact hfree.elim
  | bool | string | bytes | address =>
      cases second with
      | int => cases hsecond
      | list => cases hsecond
      | _ => rfl
  | int =>
      cases first with
      | int => cases hnone
      | _ => cases hfirst
  | list element ih =>
      obtain ⟨head, rest, rfl, htypes⟩ := exists_of_type_eq_list hfirst hfree
      obtain ⟨other, others, rfl, hothers⟩ := exists_of_type_eq_list hsecond hfree
      rw [integers, integersOf_eq_flatMap, List.flatMap_eq_nil_iff] at hnone ⊢
      exact fun item hitem => ih hfree (htypes head List.mem_cons_self) (hothers item hitem)
        (hnone head List.mem_cons_self)

/-- The contract type of a value takes another value of its type exactly if that has no negative
integers or the first integer of the value is negative. -/
theorem fits_defaultType_iff {type : ValueType} (hfree : type.AnyFree) {first value : Value}
    (hfirst : first.type = type) (hvalue : value.type = type)
    (hrange : value.InSignedRange) :
    value.Fits (fun _ => 256) first.defaultType ↔
      ∀ n ∈ value.integers, n < 0 → ∃ lead ∈ first.integers.head?, lead < 0 := by
  induction type generalizing first value with
  | any => exact hfree.elim
  | bool | string | bytes | address =>
      cases first <;> cases hfirst
      cases value <;> cases hvalue
      exact iff_of_true trivial (fun _ hnone => absurd hnone List.not_mem_nil)
  | int =>
      cases first with
      | int lead =>
          cases value with
          | int n =>
              obtain ⟨hlow, hhigh⟩ := hrange n List.mem_cons_self
              have hroom : Nat.pow 2 255 < Nat.pow 2 256 := by decide
              have hfits : (int n).Fits (fun _ => 256) (int lead).defaultType ↔
                  (n < 0 → lead < 0) := by
                rw [defaultType]
                split
                next hlead => exact iff_of_true ⟨hlow, hhigh⟩ fun _ => hlead
                next hlead =>
                  constructor
                  · rintro ⟨hnonneg, -⟩ hneg
                    omega
                  · intro hsigns
                    have hnonneg : 0 ≤ n := by
                      by_contra hneg
                      exact hlead (hsigns (by omega))
                    have hword : n < Nat.pow 2 256 := by omega
                    exact ⟨hnonneg, hword⟩
              simpa [integers] using hfits
          | _ => cases hvalue
      | _ => cases hfirst
  | list element ih =>
      obtain ⟨head, rest, rfl, htypes⟩ := exists_of_type_eq_list hfirst hfree
      obtain ⟨other, others, rfl, hothers⟩ := exists_of_type_eq_list hvalue hfree
      have hhead := htypes head List.mem_cons_self
      have hitem (item : Value) (hitem : item ∈ other :: others) :
          item.Fits (fun _ => 256) head.defaultType ↔
            ∀ n ∈ item.integers, n < 0 →
              ∃ lead ∈ (list (head :: rest)).integers.head?, lead < 0 := by
        have hbounds : item.InSignedRange := fun n hn =>
          hrange n (mem_integers_list.mpr ⟨item, hitem, hn⟩)
        rw [ih hfree hhead (hothers item hitem) hbounds, integers, integersOf]
        -- the first integer of the list is that of its first element, if there are any
        by_cases hnone : head.integers = []
        · have helement : element.AnyFree := hfree
          rw [integers_eq_nil_of_type_eq helement hhead (hothers item hitem) hnone]
          simp
        · rw [List.head?_append_of_ne_nil _ hnone]
      calc (list (other :: others)).Fits (fun _ => 256) (list (head :: rest)).defaultType
          ↔ ∀ item ∈ other :: others, item.Fits (fun _ => 256) head.defaultType := Iff.rfl
        _ ↔ ∀ item ∈ other :: others, ∀ n ∈ item.integers, n < 0 →
              ∃ lead ∈ (list (head :: rest)).integers.head?, lead < 0 :=
            forall₂_congr hitem
        _ ↔ ∀ n ∈ (list (other :: others)).integers, n < 0 →
              ∃ lead ∈ (list (head :: rest)).integers.head?, lead < 0 := by
            simp only [mem_integers_list]
            constructor
            · rintro hall n ⟨item, hmem, hn⟩
              exact hall item hmem n hn
            · intro hall item hmem n hn
              exact hall n ⟨item, hmem, hn⟩

/-- A value without mixed or empty lists is encoded as the type inferred for it exactly if its
first integer is negative or none is. -/
theorem decides_toSol_defaultType {value : Value} (hfree : value.type.AnyFree)
    (hrange : value.InSignedRange) :
    Decides value.NegativeFirst (toSol value.defaultType value) := by
  have hdecides := decides_toSol value.defaultType value
  rwa [fits_defaultType_iff hfree rfl rfl hrange] at hdecides

theorem fitsAll_map_defaultType {inputs : List Value} {room : Nat → Nat} :
    FitsAll room (inputs.map defaultType) inputs ↔
      ∀ input ∈ inputs, input.Fits room input.defaultType := by
  induction inputs with
  | nil => simp [FitsAll]
  | cons input inputs ih => simp [FitsAll, ih]

end Value

namespace MemberQuery

open Value (Decides)

theorem decides_callData {query : MemberQuery}
    (hfree : ∀ input ∈ query.inputs, input.type.AnyFree)
    (hrange : ∀ input ∈ query.inputs, input.InSignedRange) :
    Decides (∀ input ∈ query.inputs, input.NegativeFirst) query.callData := by
  have hinputs : Decides
      (Value.FitsAll (fun _ => 256) (query.inputs.map Value.defaultType) query.inputs)
      (Value.toSolAll (query.inputs.map Value.defaultType) query.inputs) :=
    Value.decides_toSolAll (fun type _ => Value.decides_toSol type) (by simp)
  have hsigns : Value.FitsAll (fun _ => 256) (query.inputs.map Value.defaultType) query.inputs ↔
      ∀ input ∈ query.inputs, input.NegativeFirst := by
    rw [Value.fitsAll_map_defaultType]
    exact forall₂_congr fun input hinput =>
      Value.fits_defaultType_iff (hfree input hinput) rfl rfl (hrange input hinput)
  rw [hsigns] at hinputs
  exact hinputs.map fun inputs =>
    selector query.member (query.inputs.map Value.defaultType) ++ SolValue.encodeParameters inputs

/-- A call without mixed or empty lists is encoded exactly if in each input the first integer is
negative or none is, and each input is encoded as the type inferred for it under the same
condition. So the order of the elements of an input matters if there are integers of both signs
in it, and in no other case. -/
theorem callData_isOk_iff_negativeFirst (query : MemberQuery)
    (hfree : ∀ input ∈ query.inputs, input.type.AnyFree)
    (hrange : ∀ input ∈ query.inputs, input.InSignedRange) :
    ((∃ data, query.callData = .ok data) ↔ ∀ input ∈ query.inputs, input.NegativeFirst) ∧
      ∀ input ∈ query.inputs,
        ((∃ encoded, Value.toSol input.defaultType input = .ok encoded) ↔ input.NegativeFirst) :=
  ⟨(decides_callData hfree hrange).isOk_iff, fun input hinput =>
    (Value.decides_toSol_defaultType (hfree input hinput) (hrange input hinput)).isOk_iff⟩

/-- A call that hands over changes of balances. -/
def settlement (changes : List Int) : MemberQuery where
  contract := .zero 20
  atBlock := 1
  member := "settle"
  inputs := [.list (changes.map fun change => .list [.int change])]
  outputTypes := []

theorem callData_isOk_iff_negativeFirst_settlement :
    ((∀ input ∈ (settlement [-2, 1]).inputs, input.type.AnyFree) ∧
      ∀ input ∈ (settlement [-2, 1]).inputs, input.InSignedRange) ∧
    (∃ data, (settlement [-2, 1]).callData = .ok data) ∧
      ∃ encoded, Value.toSol (.array (.array (.int 256)))
        (.list [.list [.int (-2)], .list [.int 1]]) = .ok encoded := by
  have hfree : ∀ input ∈ (settlement [-2, 1]).inputs, input.type.AnyFree := by
    simp [settlement, Value.type, ValueType.common, ValueType.AnyFree]
  have hrange : ∀ input ∈ (settlement [-2, 1]).inputs, input.InSignedRange := by
    simp [settlement, Value.InSignedRange, Value.integers]
  have hsigns : ∀ input ∈ (settlement [-2, 1]).inputs, input.NegativeFirst := by
    simp [settlement, Value.NegativeFirst, Value.integers]
  obtain ⟨hcall, hinputs⟩ := callData_isOk_iff_negativeFirst (settlement [-2, 1]) hfree hrange
  refine ⟨⟨hfree, hrange⟩, hcall.mpr hsigns, ?_⟩
  exact (hinputs _ List.mem_cons_self).mpr (hsigns _ List.mem_cons_self)

/-- The same changes in the other order cannot be handed over. -/
theorem callData_refused_of_order :
    ((∀ input ∈ (settlement [1, -2]).inputs, input.type.AnyFree) ∧
      ∀ input ∈ (settlement [1, -2]).inputs, input.InSignedRange) ∧
    (¬∃ encoded, Value.toSol (.array (.array (.uint 256)))
        (.list [.list [.int 1], .list [.int (-2)]]) = .ok encoded) ∧
      (¬∃ data, (settlement [1, -2]).callData = .ok data) ∧
      ∃ data, (settlement [-2, 1]).callData = .ok data := by
  have hfree : (∀ input ∈ (settlement [1, -2]).inputs, input.type.AnyFree) ∧
      ∀ input ∈ (settlement [-2, 1]).inputs, input.type.AnyFree := by
    simp [settlement, Value.type, ValueType.common, ValueType.AnyFree]
  have hrange : (∀ input ∈ (settlement [1, -2]).inputs, input.InSignedRange) ∧
      ∀ input ∈ (settlement [-2, 1]).inputs, input.InSignedRange := by
    simp [settlement, Value.InSignedRange, Value.integers]
  have hsigns : ¬(Value.list [.list [.int 1], .list [.int (-2)]]).NegativeFirst ∧
      ∀ input ∈ (settlement [-2, 1]).inputs, input.NegativeFirst := by
    simp [settlement, Value.NegativeFirst, Value.integers]
  refine ⟨⟨hfree.1, hrange.1⟩, ?_, ?_, ?_⟩
  · intro hencoded
    have hdecides := Value.decides_toSol_defaultType (hfree.1 _ List.mem_cons_self)
      (hrange.1 _ List.mem_cons_self)
    exact hsigns.1 (hdecides.isOk_iff.mp hencoded)
  · intro hdata
    have hinputs := (decides_callData hfree.1 hrange.1).isOk_iff.mp hdata
    exact hsigns.1 (hinputs _ List.mem_cons_self)
  · exact (decides_callData hfree.2 hrange.2).isOk_iff.mpr hsigns.2

end MemberQuery

end ChainExtract
