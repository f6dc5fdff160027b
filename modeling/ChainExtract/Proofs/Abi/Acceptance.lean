import ChainExtract.Proofs.Abi.Conversion

/-! # Values that contract types take

A contract type takes the values that are made as it says and whose integers have room in a word,
and refuses all others. The bits that it declares for an integer are not looked at.
-/

namespace ChainExtract

namespace Value

mutual

/-- Whether a value is one of the type, where an integer with a declared number of bits has the
given room. -/
def Fits (room : Nat → Nat) : SolType → Value → Prop
  | .bool, bool _ | .address, addr _ | .bytes, bytes _ | .string, str _ => True
  | .uint bits, int value => 0 ≤ value ∧ value < Nat.pow 2 (room bits)
  | .int bits, int value =>
    -(Nat.pow 2 (room bits - 1) : Int) ≤ value ∧ value < Nat.pow 2 (room bits - 1)
  | .fixedBytes size, bytes value => value.length = size
  | .array element, list items => ∀ item ∈ items, Fits room element item
  | .fixedArray element size, list items =>
    items.length = size ∧ ∀ item ∈ items, Fits room element item
  | .tuple components, list items => FitsAll room components items
  | _, _ => False

def FitsAll (room : Nat → Nat) : List SolType → List Value → Prop
  | [], [] => True
  | type :: types, item :: items => Fits room type item ∧ FitsAll room types items
  | _, _ => False

end

variable {room : Nat → Nat}

theorem FitsAll.length_eq {types : List SolType} {items : List Value}
    (hfits : FitsAll room types items) : items.length = types.length := by
  induction types generalizing items with
  | nil => cases items <;> simp_all [FitsAll]
  | cons type types ih =>
      cases items with
      | nil => exact hfits.elim
      | cons item items => simp [ih hfits.2]

theorem fitsAll_replicate_iff {element : SolType} {size : Nat} {items : List Value} :
    FitsAll room (List.replicate size element) items ↔
      items.length = size ∧ ∀ item ∈ items, Fits room element item := by
  induction size generalizing items with
  | zero => cases items <;> simp [FitsAll]
  | succ size ih =>
      cases items with
      | nil => simp [List.replicate_succ, FitsAll]
      | cons item items =>
          simp only [List.replicate_succ, FitsAll, ih, List.length_cons, Nat.add_right_cancel_iff,
            List.forall_mem_cons]
          tauto

theorem fitsAll_mono {narrow wide : Nat → Nat} {types : List SolType}
    (htypes : ∀ type ∈ types, ∀ {value}, Fits narrow type value → Fits wide type value)
    {items : List Value} (hfits : FitsAll narrow types items) : FitsAll wide types items := by
  induction types generalizing items with
  | nil =>
      cases items with
      | nil => trivial
      | cons => exact hfits.elim
  | cons type types ih =>
      cases items with
      | nil => exact hfits.elim
      | cons item items =>
          obtain ⟨hfirst, hrest⟩ := List.forall_mem_cons.mp htypes
          exact ⟨hfirst hfits.1, ih hrest hfits.2⟩

/-- A result that is there exactly if a condition holds, and otherwise a refusal to encode. -/
def Decides {α : Type} (condition : Prop) (result : Except Error α) : Prop :=
  (condition ∧ ∃ encoded, result = .ok encoded) ∨
    (¬condition ∧ ∃ reason, result = .error (.invalidParameters "abi encoding" reason))

theorem decides_toSolAll {types : List SolType}
    (htypes : ∀ type ∈ types, ∀ value, Decides (Fits room type value) (toSol type value))
    {items : List Value} (hlength : items.length = types.length) :
    Decides (FitsAll room types items) (toSolAll types items) := by
  induction types generalizing items with
  | nil =>
      obtain rfl := List.length_eq_zero_iff.mp hlength
      exact Or.inl ⟨trivial, [], rfl⟩
  | cons type types ih =>
      obtain ⟨hfirst, hrest⟩ := List.forall_mem_cons.mp htypes
      obtain ⟨item, items, rfl⟩ := List.exists_cons_of_length_eq_add_one hlength
      rw [toSolAll]
      rcases hfirst item with ⟨hfits, first, hitem⟩ | ⟨hfits, reason, hitem⟩
      · rw [hitem]
        rcases ih hrest (Nat.succ.inj hlength) with ⟨hall, later, hlater⟩ | ⟨hall, reason, hlater⟩
        · exact Or.inl ⟨⟨hfits, hall⟩, first :: later, by rw [hlater]; rfl⟩
        · exact Or.inr ⟨fun hboth => hall hboth.2, reason, by rw [hlater]; rfl⟩
      · exact Or.inr ⟨fun hboth => hfits hboth.1, reason, by rw [hitem]; rfl⟩

theorem Decides.map {α β : Type} {condition : Prop} {result : Except Error α}
    (hresult : Decides condition result) (f : α → β) :
    Decides condition (do return f (← result)) := by
  rcases hresult with ⟨hcondition, encoded, rfl⟩ | ⟨hcondition, reason, rfl⟩
  · exact Or.inl ⟨hcondition, f encoded, rfl⟩
  · exact Or.inr ⟨hcondition, reason, rfl⟩

theorem decides_toSolEach {element : SolType}
    (helement : ∀ value, Decides (Fits room element value) (toSol element value))
    (items : List Value) :
    Decides (∀ item ∈ items, Fits room element item) (toSolEach element items) := by
  have hall : Decides (FitsAll room (List.replicate items.length element) items)
      (toSolAll (List.replicate items.length element) items) :=
    decides_toSolAll (fun type htype => List.eq_of_mem_replicate htype ▸ helement)
      List.length_replicate.symm
  rw [toSolEach_eq_toSolAll]
  simpa [fitsAll_replicate_iff] using hall

/-- A type takes the values whose integers have room in a word, whatever bits it declares. -/
theorem decides_toSol (type : SolType) (value : Value) :
    Decides (Fits (fun _ => 256) type value) (toSol type value) := by
  have hrefused {value : Value} {type : SolType} (hfits : ¬Fits (fun _ => 256) type value) :
      Decides (Fits (fun _ => 256) type value)
        (.error (encodingMismatch value type) : Except Error SolValue) :=
    Or.inr ⟨hfits, _, rfl⟩
  induction type using SolType.induction generalizing value with
  | bool | address | bytes | string =>
      cases value <;> first
        | exact Or.inl ⟨trivial, _, rfl⟩
        | exact hrefused id
  | function => cases value <;> exact hrefused id
  | int bits =>
      cases value with
      | int number =>
          rw [toSol, SolInteger.toSigned?_eq]
          by_cases hbounds : -(Nat.pow 2 255 : Int) ≤ number ∧ number < Nat.pow 2 255
          · exact Or.inl ⟨hbounds, _, by rw [if_pos hbounds]⟩
          · rw [if_neg hbounds]
            exact hrefused hbounds
      | _ => exact hrefused id
  | uint bits =>
      cases value with
      | int number =>
          rw [toSol, SolInteger.toUnsigned?_eq]
          by_cases hbounds : 0 ≤ number ∧ number < Nat.pow 2 256
          · exact Or.inl ⟨hbounds, _, by rw [if_pos hbounds]⟩
          · rw [if_neg hbounds]
            exact hrefused hbounds
      | _ => exact hrefused id
  | fixedBytes size =>
      cases value with
      | bytes content =>
          rw [toSol]
          split
          next hlength => exact Or.inl ⟨hlength, _, rfl⟩
          next hlength => exact hrefused hlength
      | _ => exact hrefused id
  | array element ih =>
      cases value with
      | list items => exact (decides_toSolEach ih items).map SolValue.array
      | _ => exact hrefused id
  | fixedArray element size ih =>
      cases value with
      | list items =>
          rw [toSol]
          split
          next hlength =>
            have heach := (decides_toSolEach ih items).map SolValue.fixedArray
            simpa [Fits, hlength] using heach
          next hlength => exact hrefused fun hfits => hlength hfits.1
      | _ => exact hrefused id
  | tuple components ih =>
      cases value with
      | list items =>
          rw [toSol]
          split
          next hlength => exact (decides_toSolAll ih hlength).map SolValue.tuple
          next hlength => exact hrefused fun hfits => hlength (FitsAll.length_eq hfits)
      | _ => exact hrefused id

theorem Decides.isOk_iff {α : Type} {condition : Prop} {result : Except Error α}
    (hresult : Decides condition result) : (∃ encoded, result = .ok encoded) ↔ condition := by
  rcases hresult with ⟨hcondition, hok⟩ | ⟨hcondition, reason, rfl⟩
  · exact iff_of_true hok hcondition
  · exact iff_of_false (by rintro ⟨_, ⟨⟩⟩) hcondition

theorem Fits.mono {narrow wide : Nat → Nat} {type : SolType}
    (hroom : type.Throughout (SolType.BitsSatisfy fun bits => narrow bits ≤ wide bits))
    {value : Value} (hfits : Fits narrow type value) : Fits wide type value := by
  induction type using SolType.induction generalizing value with
  | bool | address | bytes | string | function | fixedBytes =>
      cases value with
      | bool | addr | bytes | str => exact hfits
      | _ => exact hfits.elim
  | int bits =>
      cases value with
      | int number =>
          have hbits : narrow bits ≤ wide bits := hroom
          have hpow : Nat.pow 2 (narrow bits - 1) ≤ Nat.pow 2 (wide bits - 1) :=
            Nat.pow_le_pow_right (by decide) (Nat.sub_le_sub_right hbits 1)
          have hbounds : -(Nat.pow 2 (narrow bits - 1) : Int) ≤ number ∧
            number < Nat.pow 2 (narrow bits - 1) := hfits
          exact ⟨by omega, by omega⟩
      | _ => exact hfits.elim
  | uint bits =>
      cases value with
      | int number =>
          have hpow : Nat.pow 2 (narrow bits) ≤ Nat.pow 2 (wide bits) :=
            Nat.pow_le_pow_right (by decide) hroom
          have hbounds : 0 ≤ number ∧ number < Nat.pow 2 (narrow bits) := hfits
          exact ⟨hbounds.1, by omega⟩
      | _ => exact hfits.elim
  | array element ih =>
      cases value with
      | list items => exact fun item hitem => ih hroom.2 (hfits item hitem)
      | _ => exact hfits.elim
  | fixedArray element size ih =>
      cases value with
      | list items => exact ⟨hfits.1, fun item hitem => ih hroom.2 (hfits.2 item hitem)⟩
      | _ => exact hfits.elim
  | tuple components ih =>
      cases value with
      | list items =>
          have hcomponents := SolType.throughoutAll_iff.mp hroom.2
          exact fitsAll_mono (fun type htype => ih type htype (hcomponents type htype)) hfits
      | _ => exact hfits.elim

/-- A type takes exactly the values that are made as it says and whose integers have room in a
word, and refuses all others. So it takes all values with room in the bits that it declares, and
no others if it declares whole words. -/
theorem toSol_isOk_iff_fits_word (type : SolType) (value : Value) :
    ((∃ encoded, toSol type value = .ok encoded) ↔ value.Fits (fun _ => 256) type) ∧
    (¬value.Fits (fun _ => 256) type →
      ∃ reason, toSol type value = .error (.invalidParameters "abi encoding" reason)) ∧
    (type.WellSized → value.Fits id type → value.Fits (fun _ => 256) type) ∧
    (type.Throughout (SolType.BitsSatisfy (· = 256)) →
      (value.Fits (fun _ => 256) type ↔ value.Fits id type)) := by
  refine ⟨(decides_toSol type value).isOk_iff, fun hfits => ?_, fun hsized => ?_, fun hwords => ?_⟩
  · rcases decides_toSol type value with ⟨hword, _⟩ | ⟨_, hrefused⟩
    · exact absurd hword hfits
    · exact hrefused
  · exact Fits.mono (hsized.imp fun _ hsize => hsize.bits_le)
  · exact ⟨Fits.mono (hwords.imp fun _ => SolType.BitsSatisfy.imp fun _ => Nat.le_of_eq ∘ Eq.symm),
      Fits.mono (hwords.imp fun _ => SolType.BitsSatisfy.imp fun _ => Nat.le_of_eq)⟩

theorem toSol_isOk_iff_fits_word_ledger :
    (ledgerType.WellSized ∧ ledger.Fits id ledgerType ∧
      ledgerType.Throughout (SolType.BitsSatisfy (· = 256)) ∧
      ¬(list [bool true]).Fits (fun _ => 256) ledgerType) ∧
    (∃ encoded, toSol ledgerType ledger = .ok encoded) ∧
      ∃ reason, toSol ledgerType (list [bool true]) =
        .error (.invalidParameters "abi encoding" reason) := by
  have hsized : ledgerType.WellSized := by
    simp [SolType.WellSized, ledgerType, SolType.Throughout, SolType.HasSize]
  have hfits : ledger.Fits id ledgerType := by
    simp [ledger, ledgerType, Fits, FitsAll]
  have hwords : ledgerType.Throughout (SolType.BitsSatisfy (· = 256)) := by
    simp [ledgerType, SolType.Throughout, SolType.BitsSatisfy]
  have hother : ¬(list [bool true]).Fits (fun _ => 256) ledgerType := by
    simp [ledgerType, Fits]
  obtain ⟨haccepted, _, hwide, _⟩ := toSol_isOk_iff_fits_word ledgerType ledger
  exact ⟨⟨hsized, hfits, hwords, hother⟩, haccepted.mpr (hwide hsized hfits),
    (toSol_isOk_iff_fits_word ledgerType (list [bool true])).2.1 hother⟩

/-- An unsigned number of eight bits is taken to be 256, for which there is no room. -/
theorem toSol_ok_without_room :
    ((SolType.uint 8).WellSized ∧ (SolType.uint 8).FunctionFree) ∧
      ¬(int 256).Fits id (.uint 8) ∧ toSol (.uint 8) (int 256) = .ok (.uint 256 8) := by
  refine ⟨⟨?_, ?_⟩, ?_, ?_⟩
  · simp [SolType.WellSized, SolType.Throughout, SolType.HasSize]
  · simp [SolType.FunctionFree, SolType.Throughout]
  · simp [Fits]
  · simp [toSol, SolInteger.toUnsigned?_eq]

end Value

end ChainExtract
