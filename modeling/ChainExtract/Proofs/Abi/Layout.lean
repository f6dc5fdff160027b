import ChainExtract.Abi.Encoding
import ChainExtract.Proofs.Abi.Integers
import ChainExtract.Proofs.Abi.Values
import Mathlib.Data.List.Induction

/-! # Layout of encodings

Where the parts of an encoding stand, and how much room they take at least.
-/

namespace ChainExtract

/-! ## Words -/

namespace Bytes

theorem ofNat_add (first last n : Nat) :
    ofNat (first + last) n = ofNat first (n / Nat.pow 256 last) ++ ofNat last n := by
  induction last generalizing n with
  | zero => simp [ofNat]
  | succ last ih =>
      have hpow : Nat.pow 256 (last + 1) = 256 * Nat.pow 256 last := Nat.mul_comm _ _
      rw [← Nat.add_assoc, ofNat, ih, ofNat, hpow, Nat.div_div_eq_div_mul, List.append_assoc]

theorem toNat_append (first last : Bytes) :
    (first ++ last).toNat = Nat.pow 256 last.length * first.toNat + last.toNat := by
  induction last using List.reverseRecOn with
  | nil => simp [toNat]
  | append_singleton last byte ih =>
      have hpow : Nat.pow 256 (last.length + 1) = 256 * Nat.pow 256 last.length :=
        Nat.mul_comm _ _
      rw [← List.append_assoc, toNat_concat, ih, toNat_concat, List.length_append,
        List.length_singleton, hpow, Nat.mul_add, Nat.mul_assoc, Nat.add_assoc]

/-- Bytes are the digits of the number that they spell. -/
theorem ofNat_toNat (bytes : Bytes) : ofNat bytes.length bytes.toNat = bytes := by
  induction bytes using List.reverseRecOn with
  | nil => rfl
  | append_singleton bytes byte ih =>
      have hbyte : byte.toNat < 256 := byte.toNat_lt
      rw [List.length_append, List.length_singleton, ofNat, toNat_concat,
        show (256 * toNat bytes + byte.toNat) / 256 = toNat bytes by omega, ih,
        show (256 * toNat bytes + byte.toNat) % 256 = byte.toNat by omega, UInt8.ofNat_toNat]

/-- Whether bytes stand in an area at an offset. The area is small enough for the offset to be
written in the eight bytes that are read of it. -/
def StandAt (bytes area : Bytes) (offset : Nat) : Prop :=
  area.length < Nat.pow 2 64 ∧
    ∃ before after, area = before ++ (bytes ++ after) ∧ before.length = offset

namespace StandAt

variable {first last bytes area : Bytes} {offset : Nat}

theorem left (hstand : (first ++ last).StandAt area offset) : first.StandAt area offset := by
  obtain ⟨hroom, before, after, rfl, hbefore⟩ := hstand
  exact ⟨hroom, before, last ++ after, by simp, hbefore⟩

theorem right (hstand : (first ++ last).StandAt area offset) :
    last.StandAt area (offset + first.length) := by
  obtain ⟨hroom, before, after, rfl, hbefore⟩ := hstand
  exact ⟨hroom, before ++ first, after, by simp, by simp [hbefore]⟩

theorem le_length (hstand : bytes.StandAt area offset) : offset ≤ area.length := by
  obtain ⟨-, before, after, rfl, rfl⟩ := hstand
  simp

theorem length_lt (hstand : bytes.StandAt area offset) : bytes.length < Nat.pow 2 64 := by
  obtain ⟨hroom, before, after, rfl, -⟩ := hstand
  simp only [List.length_append] at hroom
  omega

theorem zero {after : Bytes} (hroom : (bytes ++ after).length < Nat.pow 2 64) :
    bytes.StandAt (bytes ++ after) 0 :=
  ⟨hroom, [], after, rfl, rfl⟩

/-- The bytes come first in the area that starts at the offset. -/
theorem exists_drop (hstand : bytes.StandAt area offset) :
    ∃ after, area.drop offset = bytes ++ after ∧ bytes.StandAt (bytes ++ after) 0 := by
  obtain ⟨hroom, before, after, rfl, rfl⟩ := hstand
  have hless : (bytes ++ after).length ≤ (before ++ (bytes ++ after)).length := by simp
  exact ⟨after, List.drop_left, zero (Nat.lt_of_le_of_lt hless hroom)⟩

end StandAt

end Bytes

/-! ## Heads and tails -/

namespace EncodedPart

/-- What a component takes in the head, its tail starting at the offset. -/
def head (offset : Nat) (part : EncodedPart) : Bytes :=
  if part.inTail then Bytes.ofNat 32 offset else part.bytes

def tail (part : EncodedPart) : Bytes := if part.inTail then part.bytes else []

theorem heads_cons (offset : Nat) (part : EncodedPart) (parts : List EncodedPart) :
    heads offset (part :: parts) =
      part.head offset ++ heads (offset + part.tail.length) parts := by
  unfold head tail
  cases hpart : part.inTail <;> simp [heads, hpart]

theorem tails_cons (part : EncodedPart) (parts : List EncodedPart) :
    tails (part :: parts) = part.tail ++ tails parts := by
  simp [tails, tail]

@[simp] theorem length_head (offset : Nat) (part : EncodedPart) :
    (part.head offset).length = part.headSize := by
  unfold head headSize
  split <;> simp

@[simp] theorem length_heads (offset : Nat) (parts : List EncodedPart) :
    (heads offset parts).length = headsSize parts := by
  induction parts generalizing offset with
  | nil => rfl
  | cons part parts ih => simp [heads_cons, ih, headsSize]

/-- A component takes the room of its bytes in the head and the tail together. -/
theorem length_le_headSize_add (part : EncodedPart) :
    part.bytes.length ≤ part.headSize + part.tail.length := by
  unfold headSize tail
  split <;> simp

theorem length_join (parts : List EncodedPart) :
    (join parts).length = headsSize parts + (tails parts).length := by
  simp [join]

end EncodedPart

/-! ## Values and their types -/

namespace SolType

@[simp] theorem anyDynamic_replicate (element : SolType) (size : Nat) :
    anyDynamic (List.replicate size element) = (size != 0 && element.isDynamic) := by
  induction size with
  | zero => rfl
  | succ size ih =>
      rw [List.replicate_succ, anyDynamic, ih]
      cases element.isDynamic <;> simp

@[simp] theorem sumMinWords_replicate (element : SolType) (size : Nat) :
    sumMinWords (List.replicate size element) = size * element.minWords := by
  induction size with
  | zero => simp [sumMinWords]
  | succ size ih => rw [List.replicate_succ, sumMinWords, ih, Nat.succ_mul, Nat.add_comm]

end SolType

namespace SolValue

theorem HasTypes.anyDynamic_eq {types : List SolType} {items : List SolValue}
    (hitems : HasTypes types items)
    (heach : ∀ type ∈ types, ∀ item, HasType type item → item.isDynamic = type.isDynamic) :
    anyDynamic items = SolType.anyDynamic types := by
  induction types generalizing items with
  | nil => cases items <;> simp_all [HasTypes, anyDynamic, SolType.anyDynamic]
  | cons type types ih =>
      obtain ⟨hfirst, hrest⟩ := List.forall_mem_cons.mp heach
      cases items with
      | nil => exact hitems.elim
      | cons item items =>
          rw [anyDynamic, SolType.anyDynamic, hfirst item hitems.1, ih hitems.2 hrest]

/-- Values stand behind an offset if those of their type do. -/
theorem HasType.isDynamic_eq {type : SolType} {value : SolValue} (hvalue : HasType type value) :
    value.isDynamic = type.isDynamic := by
  induction type using SolType.induction generalizing value with
  | fixedArray element size ih =>
      cases value with
      | fixedArray items =>
          have hitems := hasTypes_replicate_iff.mpr hvalue
          rw [isDynamic, SolType.isDynamic, ← SolType.anyDynamic_replicate]
          exact hitems.anyDynamic_eq
            (List.forall_mem_replicate.mpr (Or.inr fun _ hitem => ih hitem))
      | _ => exact hvalue.elim
  | tuple components ih =>
      cases value with
      | tuple items => exact HasTypes.anyDynamic_eq hvalue fun type hmem _ hitem => ih type hmem hitem
      | _ => exact hvalue.elim
  | _ => cases value <;> first | rfl | exact hvalue.elim

/-- The value as a component of a sequence. -/
def part (value : SolValue) : EncodedPart := ⟨value.isDynamic, value.encode⟩

theorem parts_cons (item : SolValue) (items : List SolValue) :
    parts (item :: items) = item.part :: parts items := rfl

theorem tails_parts_eq_nil {items : List SolValue} (hstatic : anyDynamic items = false) :
    EncodedPart.tails (parts items) = [] := by
  induction items with
  | nil => rfl
  | cons item items ih =>
      obtain ⟨hitem, hrest⟩ := Bool.or_eq_false_iff.mp hstatic
      rw [parts_cons, EncodedPart.tails_cons, ih hrest, EncodedPart.tail, part, hitem]
      rfl

theorem length_encodeBytes (content : Bytes) :
    (encodeBytes content).length = 32 + 32 * ((content.length + 31) / 32) := by
  simp only [encodeBytes, List.length_append, Bytes.length_ofNat, List.length_replicate]
  omega

theorem HasTypes.sumMinWords_le {types : List SolType} {items : List SolValue}
    (hitems : HasTypes types items)
    (heach : ∀ type ∈ types, ∀ item, HasType type item → 32 * type.minWords ≤ item.encode.length) :
    32 * SolType.sumMinWords types ≤ (EncodedPart.join (parts items)).length := by
  rw [EncodedPart.length_join]
  induction types generalizing items with
  | nil => simp [SolType.sumMinWords]
  | cons type types ih =>
      obtain ⟨hfirst, hrest⟩ := List.forall_mem_cons.mp heach
      cases items with
      | nil => exact hitems.elim
      | cons item items =>
          have hitem := hfirst item hitems.1
          have hlater := ih hitems.2 hrest
          have hroom : item.encode.length ≤ _ := item.part.length_le_headSize_add
          rw [SolType.sumMinWords, parts_cons, EncodedPart.headsSize, EncodedPart.tails_cons,
            List.length_append]
          omega

/-- Items of one type have the least number of words of the type each. -/
theorem length_mul_minWords_le {element : SolType}
    (helement : ∀ item, HasType element item → 32 * element.minWords ≤ item.encode.length)
    {items : List SolValue} (hitems : ∀ item ∈ items, HasType element item) :
    32 * (items.length * element.minWords) ≤ (EncodedPart.join (parts items)).length := by
  have htypes : HasTypes (List.replicate items.length element) items :=
    hasTypes_replicate_iff.mpr ⟨rfl, hitems⟩
  rw [← SolType.sumMinWords_replicate]
  exact htypes.sumMinWords_le (List.forall_mem_replicate.mpr (Or.inr helement))

/-- An encoding has the least number of words that its type promises. -/
theorem HasType.minWords_le {type : SolType} {value : SolValue} (hvalue : HasType type value) :
    32 * type.minWords ≤ value.encode.length := by
  induction type using SolType.induction generalizing value with
  | fixedArray element size ih =>
      cases value with
      | fixedArray items =>
          obtain ⟨rfl, hitems⟩ := hvalue
          exact length_mul_minWords_le (fun _ hitem => ih hitem) hitems
      | _ => exact hvalue.elim
  | tuple components ih =>
      cases value with
      | tuple items =>
          exact HasTypes.sumMinWords_le hvalue fun type hmem _ hitem => ih type hmem hitem
      | _ => exact hvalue.elim
  | _ =>
      cases value <;> first
        | exact hvalue.elim
        | simp [encode, SolType.minWords, length_encodeBytes, FixedBytes.length_bytes]

end SolValue

end ChainExtract
