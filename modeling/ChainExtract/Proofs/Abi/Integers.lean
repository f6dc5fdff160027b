import ChainExtract.Abi.Integer
import ChainExtract.Proofs.Numerals
import Mathlib.Tactic.Common

/-! # Bounds of integers

An integer crosses over to a word exactly if the word has room for it, and what has crossed
over comes back as the integer that it was.
-/

namespace ChainExtract

namespace Bytes

theorem toNat_concat (bytes : Bytes) (byte : UInt8) :
    toNat (bytes ++ [byte]) = 256 * bytes.toNat + byte.toNat := by
  simp [toNat]

theorem digitsOnto_of_le {n : Nat} (hn : 256 ≤ n) (tail : Bytes) :
    digitsOnto n tail = digitsOnto (n / 256) (UInt8.ofNat (n % 256) :: tail) := by
  rw [digitsOnto, dif_pos hn]

theorem digitsOnto_of_lt {n : Nat} (hn : n < 256) (tail : Bytes) :
    digitsOnto n tail = UInt8.ofNat n :: tail := by
  rw [digitsOnto, dif_neg (by omega)]

theorem digitsOnto_eq (n : Nat) (tail : Bytes) : digitsOnto n tail = digits n ++ tail := by
  induction n using Nat.strongRecOn generalizing tail with
  | ind n ih =>
      by_cases hn : 256 ≤ n
      · have hless : n / 256 < n := by omega
        rw [digits, digitsOnto_of_le hn, digitsOnto_of_le hn, ih _ hless, ih _ hless [_],
          List.append_assoc]
        rfl
      · rw [digits, digitsOnto_of_lt (by omega), digitsOnto_of_lt (by omega)]
        rfl

theorem digits_of_le {n : Nat} (hn : 256 ≤ n) :
    digits n = digits (n / 256) ++ [UInt8.ofNat (n % 256)] := by
  rw [digits, digitsOnto_of_le hn, digitsOnto_eq]

theorem digits_of_lt {n : Nat} (hn : n < 256) : digits n = [UInt8.ofNat n] :=
  digitsOnto_of_lt hn []

theorem digits_ne_nil (n : Nat) : digits n ≠ [] := by
  by_cases hn : 256 ≤ n
  · simp [digits_of_le hn]
  · simp [digits_of_lt (show n < 256 by omega)]

/-- The digits of a number spell the number. -/
theorem toNat_digits (n : Nat) : (digits n).toNat = n := by
  induction n using Nat.strongRecOn with
  | ind n ih =>
      by_cases hn : 256 ≤ n
      · have hlast : (UInt8.ofNat (n % 256)).toNat = n % 256 := by simp
        rw [digits_of_le hn, toNat_concat, ih (n / 256) (by omega), hlast]
        omega
      · have hone : (UInt8.ofNat n).toNat = n := by simp; omega
        rw [digits_of_lt (by omega), toNat, List.foldl_cons, List.foldl_nil, hone]
        omega

/-- A number has as many digits as there are powers of 256 up to it. -/
theorem length_digits_le_iff (len n : Nat) :
    (digits n).length ≤ len + 1 ↔ n < Nat.pow 256 (len + 1) := by
  induction len generalizing n with
  | zero =>
      have hpow : Nat.pow 256 (0 + 1) = 256 := by decide
      by_cases hn : 256 ≤ n
      · have hrest : 0 < (digits (n / 256)).length := List.length_pos_iff.mpr (digits_ne_nil _)
        rw [digits_of_le hn, List.length_append, List.length_singleton, hpow]
        omega
      · rw [digits_of_lt (by omega), List.length_singleton, hpow]
        omega
  | succ len ih =>
      have hpow : Nat.pow 256 (len + 1 + 1) = 256 * Nat.pow 256 (len + 1) := Nat.mul_comm _ _
      by_cases hn : 256 ≤ n
      · rw [digits_of_le hn, List.length_append, List.length_singleton,
          Nat.add_le_add_iff_right, ih, hpow]
        omega
      · have hone : 0 < Nat.pow 256 (len + 1) := Nat.pow_pos (by decide)
        rw [digits_of_lt (by omega), hpow]
        simp only [List.length_singleton]
        omega

/-- A number with room in a word is read from its word. -/
theorem toNat_ofNat_word {n : Nat} (hn : n < Nat.pow 2 256) : (ofNat 32 n).toNat = n := by
  rw [toNat_ofNat]
  exact Nat.mod_eq_of_lt hn

end Bytes

namespace SolInteger

theorem toUnsigned?_eq (value : Int) : toUnsigned? value =
    if 0 ≤ value ∧ value < Nat.pow 2 256 then some value.toNat else none := by
  by_cases hneg : value < 0
  · have hbounds : ¬(0 ≤ value ∧ value < Nat.pow 2 256) := by omega
    rw [toUnsigned?, if_pos hneg, if_neg hbounds]
  · have hfits : (Bytes.digits value.natAbs).length ≤ 32 ↔
        0 ≤ value ∧ value < Nat.pow 2 256 := by
      have hpow : Nat.pow 256 (31 + 1) = Nat.pow 2 256 := by decide
      rw [Bytes.length_digits_le_iff 31, hpow]
      omega
    have hnat : value.toNat = value.natAbs := by omega
    simp only [toUnsigned?, if_neg hneg, hfits, Bytes.toNat_digits, hnat]

/-- The decimal text of an integer has its sign and its magnitude. -/
theorem ofDecimal?_decimal (value : Int) :
    ofDecimal? (Numeral.decimal value) = ofMagnitude? (value < 0) value.natAbs := by
  rw [ofDecimal?, Numeral.toList_decimal_eq]
  by_cases hneg : value < 0
  · simp [hneg, Numeral.ofDigits?_digits]
  · simp only [hneg, ↓reduceIte, List.nil_append, decide_false]
    split
    next cs hcs =>
      have hminus : '-' ∈ Numeral.digits 10 value.natAbs := hcs ▸ List.mem_cons_self
      exact absurd hminus (Numeral.notMem_digits (by decide) _)
    next => simp [Numeral.ofDigits?_digits]

theorem toSigned?_eq (value : Int) : toSigned? value =
    if -(Nat.pow 2 255 : Int) ≤ value ∧ value < Nat.pow 2 255 then some value else none := by
  rw [toSigned?, ofDecimal?_decimal, ofMagnitude?]
  by_cases hneg : value < 0
  · have hfits : value.natAbs ≤ Nat.pow 2 255 ↔
        -(Nat.pow 2 255 : Int) ≤ value ∧ value < Nat.pow 2 255 := by omega
    have habs : (-(value.natAbs : Int)) = value := by omega
    simp only [hneg, decide_true, ↓reduceIte, hfits, habs]
  · have hfits : value.natAbs < Nat.pow 2 255 ↔
        -(Nat.pow 2 255 : Int) ≤ value ∧ value < Nat.pow 2 255 := by omega
    have habs : (value.natAbs : Int) = value := by omega
    simp only [hneg, decide_false, Bool.false_eq_true, ↓reduceIte, hfits, habs]

theorem ofUnsigned_eq {value : Nat} (hvalue : value < Nat.pow 2 256) :
    ofUnsigned value = value := by
  rw [ofUnsigned, Bytes.toNat_ofNat_word hvalue]

theorem ofSigned_eq {value : Int} (hlow : -(Nat.pow 2 255 : Int) ≤ value)
    (hhigh : value < Nat.pow 2 255) : ofSigned value = value := by
  have hroom : Nat.pow 2 255 < Nat.pow 2 256 := by decide
  have habs : ofUnsigned value.natAbs = value.natAbs := ofUnsigned_eq (by omega)
  rw [ofSigned, habs]
  split <;> omega

end SolInteger

end ChainExtract
