import ChainExtract.Proofs.Abi.Integers
import ChainExtract.Proofs.Abi.Values

/-! # Conversion of values and contract values

A value that a contract type takes stands for one contract value of the type, which becomes the
value again, and the other way round.
-/

namespace ChainExtract

open SolValue (HasType HasTypes AllPadded)

theorem FixedBytes.bytes_padRight {n : Nat} {bytes : Bytes} (hlength : bytes.length ≤ n) :
    (padRight n bytes).bytes = bytes ++ List.replicate (n - bytes.length) 0 := by
  simp only [padRight, Bytes.padRight, List.take_of_length_le hlength]

namespace Value

/-- The contract value is one of the type in which nothing but zeros is filled up, and becomes
the value. -/
structure Encodes (encoded : SolValue) (type : SolType) (value : Value) : Prop where
  hasType : encoded.HasType type
  padded : encoded.Padded
  toValue_eq : encoded.toValue = value

theorem toSolEach_eq_toSolAll (element : SolType) (items : List Value) :
    toSolEach element items = toSolAll (List.replicate items.length element) items := by
  induction items with
  | nil => rfl
  | cons item items ih => rw [toSolEach, ih]; rfl

theorem encodes_toSolAll {types : List SolType}
    (htypes : ∀ type ∈ types, ∀ {value encoded}, toSol type value = .ok encoded →
      Encodes encoded type value)
    {items : List Value} {encoded : List SolValue} (hlength : items.length = types.length)
    (hitems : toSolAll types items = .ok encoded) :
    HasTypes types encoded ∧ AllPadded encoded ∧ encoded.map SolValue.toValue = items := by
  induction types generalizing items encoded with
  | nil =>
      obtain rfl := List.length_eq_zero_iff.mp hlength
      cases hitems
      exact ⟨trivial, trivial, rfl⟩
  | cons type types ih =>
      obtain ⟨hfirst, hrest⟩ := List.forall_mem_cons.mp htypes
      obtain ⟨item, items, rfl⟩ := List.exists_cons_of_length_eq_add_one hlength
      rw [toSolAll] at hitems
      obtain ⟨first, hitem, hmore⟩ := exists_of_bind_ok hitems
      obtain ⟨later, hlater, hreturn⟩ := exists_of_bind_ok hmore
      cases hreturn
      have hone := hfirst hitem
      obtain ⟨htyped, hpadded, hmap⟩ := ih hrest (Nat.succ.inj hlength) hlater
      refine ⟨⟨hone.hasType, htyped⟩, ⟨hone.padded, hpadded⟩, ?_⟩
      rw [List.map_cons, hone.toValue_eq, hmap]

theorem encodes_toSolEach {element : SolType}
    (helement : ∀ {value encoded}, toSol element value = .ok encoded →
      Encodes encoded element value)
    {items : List Value} {encoded : List SolValue} (hitems : toSolEach element items = .ok encoded) :
    (encoded.length = items.length ∧ ∀ item ∈ encoded, HasType element item) ∧
      AllPadded encoded ∧ encoded.map SolValue.toValue = items := by
  rw [toSolEach_eq_toSolAll] at hitems
  have htypes : ∀ type ∈ List.replicate items.length element, ∀ {value encoded},
      toSol type value = .ok encoded → Encodes encoded type value := by
    intro type htype
    exact List.eq_of_mem_replicate htype ▸ helement
  obtain ⟨htyped, hrest⟩ := encodes_toSolAll htypes List.length_replicate.symm hitems
  exact ⟨SolValue.hasTypes_replicate_iff.mp htyped, hrest⟩

section

variable {value : Value} {encoded : SolValue}

-- The equations of `toSol` are generated before the lemmas that unfold it.
attribute [local simp] toSol

theorem encodes_int {bits : Nat} (hencoded : toSol (.int bits) value = .ok encoded) :
    Encodes encoded (.int bits) value := by
  cases value with
  | int number =>
      rw [toSol, SolInteger.toSigned?_eq] at hencoded
      by_cases hbounds : -(Nat.pow 2 255 : Int) ≤ number ∧ number < Nat.pow 2 255
      · rw [if_pos hbounds] at hencoded
        cases hencoded
        refine ⟨⟨rfl, hbounds⟩, trivial, ?_⟩
        rw [SolValue.toValue, SolInteger.ofSigned_eq hbounds.1 hbounds.2]
      · rw [if_neg hbounds] at hencoded
        cases hencoded
  | _ => cases hencoded

theorem encodes_uint {bits : Nat} (hencoded : toSol (.uint bits) value = .ok encoded) :
    Encodes encoded (.uint bits) value := by
  cases value with
  | int number =>
      rw [toSol, SolInteger.toUnsigned?_eq] at hencoded
      by_cases hbounds : 0 ≤ number ∧ number < Nat.pow 2 256
      · rw [if_pos hbounds] at hencoded
        cases hencoded
        have hroom : number.toNat < Nat.pow 2 256 := by omega
        refine ⟨⟨rfl, hroom⟩, trivial, ?_⟩
        rw [SolValue.toValue, SolInteger.ofUnsigned_eq hroom, Int.toNat_of_nonneg hbounds.1]
      · rw [if_neg hbounds] at hencoded
        cases hencoded
  | _ => cases hencoded

/-- The bytes stand in front in the word, and the zeros behind them are no part of the value. -/
theorem encodes_fixedBytes {size : Nat} (hsize : size ≤ 32)
    (hencoded : toSol (.fixedBytes size) value = .ok encoded) :
    Encodes encoded (.fixedBytes size) value := by
  cases value with
  | bytes content =>
      simp only [toSol] at hencoded
      split at hencoded
      next hlength =>
        cases hencoded
        subst hlength
        have hbytes := FixedBytes.bytes_padRight hsize
        refine ⟨⟨rfl, hsize⟩, ?_, ?_⟩
        · rw [SolValue.Padded, hbytes, List.drop_left]
        · rw [SolValue.toValue, hbytes, List.take_left]
      next => cases hencoded
  | _ => cases hencoded

theorem encodes_array {element : SolType}
    (helement : ∀ {value encoded}, toSol element value = .ok encoded →
      Encodes encoded element value)
    (hencoded : toSol (.array element) value = .ok encoded) :
    Encodes encoded (.array element) value := by
  cases value with
  | list items =>
      rw [toSol] at hencoded
      obtain ⟨each, heach, hreturn⟩ := exists_of_bind_ok hencoded
      cases hreturn
      obtain ⟨⟨_, htyped⟩, hpadded, hmap⟩ := encodes_toSolEach helement heach
      exact ⟨htyped, hpadded, by rw [SolValue.toValue, SolValue.toValues_eq_map, hmap]⟩
  | _ => cases hencoded

theorem encodes_fixedArray {element : SolType} {size : Nat}
    (helement : ∀ {value encoded}, toSol element value = .ok encoded →
      Encodes encoded element value)
    (hencoded : toSol (.fixedArray element size) value = .ok encoded) :
    Encodes encoded (.fixedArray element size) value := by
  cases value with
  | list items =>
      rw [toSol] at hencoded
      split at hencoded
      next hlength =>
        obtain ⟨each, heach, hreturn⟩ := exists_of_bind_ok hencoded
        cases hreturn
        obtain ⟨⟨hcount, htyped⟩, hpadded, hmap⟩ := encodes_toSolEach helement heach
        exact ⟨⟨hcount.trans hlength, htyped⟩, hpadded, by
          rw [SolValue.toValue, SolValue.toValues_eq_map, hmap]⟩
      next => cases hencoded
  | _ => cases hencoded

theorem encodes_tuple {components : List SolType}
    (hcomponents : ∀ type ∈ components, ∀ {value encoded}, toSol type value = .ok encoded →
      Encodes encoded type value)
    (hencoded : toSol (.tuple components) value = .ok encoded) :
    Encodes encoded (.tuple components) value := by
  cases value with
  | list items =>
      rw [toSol] at hencoded
      split at hencoded
      next hlength =>
        obtain ⟨all, hall, hreturn⟩ := exists_of_bind_ok hencoded
        cases hreturn
        obtain ⟨htyped, hpadded, hmap⟩ := encodes_toSolAll hcomponents hlength hall
        exact ⟨htyped, hpadded, by rw [SolValue.toValue, SolValue.toValues_eq_map, hmap]⟩
      next => cases hencoded
  | _ => cases hencoded

end

/-- What a value is encoded as is of the type, filled up with zeros, and becomes the value. -/
theorem encodes_of_toSol {type : SolType} (hsized : type.WellSized) {value : Value}
    {encoded : SolValue} (hencoded : toSol type value = .ok encoded) :
    Encodes encoded type value := by
  induction type using SolType.induction generalizing value encoded with
  | bool | address | bytes | string =>
      cases value <;> cases hencoded
      exact ⟨trivial, trivial, rfl⟩
  | function => cases value <;> cases hencoded
  | int bits => exact encodes_int hencoded
  | uint bits => exact encodes_uint hencoded
  | fixedBytes size => exact encodes_fixedBytes hsized.2 hencoded
  | array element ih => exact encodes_array (ih hsized.2) hencoded
  | fixedArray element size ih => exact encodes_fixedArray (ih hsized.2) hencoded
  | tuple components ih =>
      have hcomponents := SolType.throughoutAll_iff.mp hsized.2
      exact encodes_tuple (fun type htype => ih type htype (hcomponents type htype)) hencoded

theorem toSolAll_map_toValue {types : List SolType}
    (htypes : ∀ type ∈ types, ∀ {encoded : SolValue}, encoded.HasType type → encoded.Padded →
      toSol type encoded.toValue = .ok encoded)
    {items : List SolValue} (htyped : HasTypes types items) (hpadded : AllPadded items) :
    toSolAll types (items.map SolValue.toValue) = .ok items := by
  induction types generalizing items with
  | nil =>
      cases items with
      | nil => rfl
      | cons => exact htyped.elim
  | cons type types ih =>
      cases items with
      | nil => exact htyped.elim
      | cons item items =>
          obtain ⟨hfirst, hrest⟩ := List.forall_mem_cons.mp htypes
          rw [List.map_cons, toSolAll, hfirst htyped.1 hpadded.1, ih hrest htyped.2 hpadded.2]
          rfl

theorem toSolEach_map_toValue {element : SolType}
    (helement : ∀ {encoded : SolValue}, encoded.HasType element → encoded.Padded →
      toSol element encoded.toValue = .ok encoded)
    {items : List SolValue} (htyped : ∀ item ∈ items, HasType element item)
    (hpadded : AllPadded items) :
    toSolEach element (items.map SolValue.toValue) = .ok items := by
  rw [toSolEach_eq_toSolAll, List.length_map]
  refine toSolAll_map_toValue ?_ (SolValue.hasTypes_replicate_iff.mpr ⟨rfl, htyped⟩) hpadded
  intro type htype
  exact List.eq_of_mem_replicate htype ▸ helement

/-- A contract value without functions is what its value is encoded as. -/
theorem toSol_toValue {type : SolType} (hfree : type.FunctionFree) {encoded : SolValue}
    (htyped : encoded.HasType type) (hpadded : encoded.Padded) :
    toSol type encoded.toValue = .ok encoded := by
  induction type using SolType.induction generalizing encoded with
  | bool | address | bytes | string =>
      cases encoded <;> first
        | rfl
        | exact htyped.elim
  | function => exact absurd rfl hfree
  | int bits =>
      cases encoded with
      | int number declared =>
          obtain ⟨rfl, hbounds⟩ := htyped
          simp only [SolValue.toValue, toSol, SolInteger.ofSigned_eq hbounds.1 hbounds.2,
            SolInteger.toSigned?_eq, if_pos hbounds]
      | _ => exact htyped.elim
  | uint bits =>
      cases encoded with
      | uint number declared =>
          obtain ⟨rfl, hroom⟩ := htyped
          have hbounds : 0 ≤ (number : Int) ∧ (number : Int) < Nat.pow 2 256 := by omega
          simp only [SolValue.toValue, toSol, SolInteger.ofUnsigned_eq hroom,
            SolInteger.toUnsigned?_eq, if_pos hbounds, Int.toNat_natCast]
      | _ => exact htyped.elim
  | fixedBytes size =>
      cases encoded with
      | fixedBytes word declared =>
          obtain ⟨rfl, hsize⟩ := htyped
          have hlength : (word.bytes.take declared).length = declared := by
            rw [List.length_take, word.length_bytes]
            omega
          have hword : FixedBytes.padRight 32 (word.bytes.take declared) = word := by
            apply FixedBytes.ext
            rw [FixedBytes.bytes_padRight (by omega), hlength, ← hpadded, List.take_append_drop]
          simp only [SolValue.toValue, toSol, hlength, ↓reduceIte, hword]
      | _ => exact htyped.elim
  | array element ih =>
      cases encoded with
      | array items =>
          rw [SolValue.toValue, SolValue.toValues_eq_map, toSol,
            toSolEach_map_toValue (ih hfree.2) htyped hpadded]
          rfl
      | _ => exact htyped.elim
  | fixedArray element size ih =>
      cases encoded with
      | fixedArray items =>
          rw [SolValue.toValue, SolValue.toValues_eq_map, toSol, List.length_map, if_pos htyped.1,
            toSolEach_map_toValue (ih hfree.2) htyped.2 hpadded]
          rfl
      | _ => exact htyped.elim
  | tuple components ih =>
      cases encoded with
      | tuple items =>
          have hcomponents := SolType.throughoutAll_iff.mp hfree.2
          rw [SolValue.toValue, SolValue.toValues_eq_map, toSol, List.length_map,
            if_pos (SolValue.HasTypes.length_eq htyped), toSolAll_map_toValue
              (fun type htype => ih type htype (hcomponents type htype)) htyped hpadded]
          rfl
      | _ => exact htyped.elim

/-- The two conversions undo each other: what a value is encoded as becomes the value again, and
a contract value without functions, filled up with zeros, is what its value is encoded as. All
types that texts name are well sized. -/
theorem toSol_inverse_toValue (type : SolType) :
    (∀ text, SolType.ofName text = .ok type → type.WellSized) ∧
    (type.WellSized → ∀ value encoded, toSol type value = .ok encoded →
      encoded.toValue = value ∧ encoded.HasType type ∧ encoded.Padded) ∧
    (type.FunctionFree → ∀ encoded : SolValue, encoded.HasType type → encoded.Padded →
      toSol type encoded.toValue = .ok encoded) := by
  refine ⟨fun text => SolType.wellSized_of_ofName, fun hsized value encoded hencoded => ?_,
    fun hfree encoded htyped hpadded => ?_⟩
  · have hencodes := encodes_of_toSol hsized hencoded
    exact ⟨hencodes.toValue_eq, hencodes.hasType, hencodes.padded⟩
  · exact toSol_toValue hfree htyped hpadded

/-- A type with integers in arrays and tuples. -/
def ledgerType : SolType :=
  .array (.tuple [.uint 256, .fixedArray (.int 256) 2, .fixedBytes 4, .tuple []])

/-- Values at the ends of the ranges of integers. -/
def ledger : Value :=
  .list [.list [.int (Nat.pow 2 256 - 1), .list [.int (-(Nat.pow 2 255)), .int (Nat.pow 2 255 - 1)],
    .bytes [1, 2, 0, 0], .list []]]

def encodedLedger : SolValue :=
  .array [.tuple [.uint (Nat.pow 2 256 - 1) 256,
    .fixedArray [.int (-(Nat.pow 2 255)) 256, .int (Nat.pow 2 255 - 1) 256],
    .fixedBytes (.padRight 32 [1, 2, 0, 0]) 4, .tuple []]]

theorem toSol_inverse_toValue_ledger :
    (SolType.ofName "(bool,bytes)[]" = .ok (.array (.tuple [.bool, .bytes])) ∧
      (SolType.array (.tuple [.bool, .bytes])).WellSized) ∧
    (ledgerType.WellSized ∧ ledgerType.FunctionFree ∧
      toSol ledgerType ledger = .ok encodedLedger ∧ encodedLedger.HasType ledgerType ∧
      encodedLedger.Padded) ∧
    encodedLedger.toValue = ledger ∧
      toSol ledgerType encodedLedger.toValue = .ok encodedLedger := by
  have hsized : ledgerType.WellSized := by
    simp [SolType.WellSized, ledgerType, SolType.Throughout, SolType.HasSize]
  have hfree : ledgerType.FunctionFree := by
    simp [SolType.FunctionFree, ledgerType, SolType.Throughout]
  have hencoded : toSol ledgerType ledger = .ok encodedLedger := by
    simp [ledgerType, ledger, encodedLedger, toSol, toSolEach, toSolAll,
      SolInteger.toUnsigned?_eq, SolInteger.toSigned?_eq, Bind.bind, Except.bind, Pure.pure,
      Except.pure]
  obtain ⟨hvalue, htyped, hpadded⟩ :=
    (toSol_inverse_toValue ledgerType).2.1 hsized ledger encodedLedger hencoded
  exact ⟨⟨SolType.ofName_flags, (toSol_inverse_toValue _).1 _ SolType.ofName_flags⟩,
    ⟨hsized, hfree, hencoded, htyped, hpadded⟩, hvalue,
    (toSol_inverse_toValue ledgerType).2.2 hfree encodedLedger htyped hpadded⟩

end Value

end ChainExtract
