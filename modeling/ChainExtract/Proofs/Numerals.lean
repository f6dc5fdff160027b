import ChainExtract.Text.Numeral
import Mathlib.Tactic.Common

/-! # Decimal numerals

A decimal numeral can be read back, and it has no characters but digits and a sign.
-/

namespace ChainExtract.Numeral

theorem digitValue?_digitChar {digit : Nat} (hdigit : digit < 10) :
    digitValue? 10 (digitChar digit) = some digit := by
  revert digit
  decide

theorem foldlM_digitsOnto (n : Nat) (tail : List Char) :
    (digitsOnto 10 n tail).foldlM (fun n c => (digitValue? 10 c).map (10 * n + ·)) 0 =
      tail.foldlM (fun n c => (digitValue? 10 c).map (10 * n + ·)) n := by
  induction n using Nat.strongRecOn generalizing tail with
  | ind n ih =>
      rw [digitsOnto]
      split
      next hlarge =>
        have hsplit : 10 * (n / 10) + n % 10 = n := by omega
        rw [ih (n / 10) (by omega), List.foldlM_cons,
          digitValue?_digitChar (Nat.mod_lt n (by decide))]
        simp [hsplit]
      next hsmall =>
        rw [List.foldlM_cons, digitValue?_digitChar (by omega)]
        simp

theorem digitsOnto_ne_nil (n : Nat) (tail : List Char) : digitsOnto 10 n tail ≠ [] := by
  induction n using Nat.strongRecOn generalizing tail with
  | ind n ih =>
      rw [digitsOnto]
      split
      · exact ih (n / 10) (by omega) _
      · exact List.cons_ne_nil _ _

/-- The digits of a number are read as the number. -/
theorem ofDigits?_digits (n : Nat) : ofDigits? 10 (digits 10 n) = some n := by
  have hread := foldlM_digitsOnto n []
  change (digits 10 n).foldlM _ 0 = _ at hread
  cases hdigits : digits 10 n with
  | nil => exact absurd hdigits (digitsOnto_ne_nil n [])
  | cons c cs =>
      rw [hdigits] at hread
      exact hread

theorem digits_injective : Function.Injective (digits 10) := by
  intro first second hsame
  have hfirst := foldlM_digitsOnto first []
  rw [show digitsOnto 10 first [] = digitsOnto 10 second [] from hsame,
    foldlM_digitsOnto second []] at hfirst
  simpa using hfirst.symm

theorem toList_decimal_eq (n : Int) :
    (decimal n).toList = (if n < 0 then ['-'] else []) ++ digits 10 n.natAbs := by
  by_cases hneg : n < 0 <;> simp [decimal, text, hneg]

theorem toList_decimal (n : Nat) : (decimal n).toList = digits 10 n := by
  have hnonneg : ¬ (n : Int) < 0 := by omega
  simp [toList_decimal_eq, hnonneg]

theorem mem_digitsOnto {n : Nat} {tail : List Char} {c : Char} (hc : c ∈ digitsOnto 10 n tail) :
    c ∈ tail ∨ ∃ digit < 10, c = digitChar digit := by
  induction n using Nat.strongRecOn generalizing tail with
  | ind n ih =>
      have hdigit : c ∈ digitChar (n % 10) :: tail →
          c ∈ tail ∨ ∃ digit < 10, c = digitChar digit := by
        intro hmem
        rcases List.mem_cons.mp hmem with hlast | htail
        · exact Or.inr ⟨n % 10, Nat.mod_lt n (by decide), hlast⟩
        · exact Or.inl htail
      rw [digitsOnto] at hc
      split at hc
      next hlarge =>
        rcases ih (n / 10) (by omega) hc with hmem | hhigher
        · exact hdigit hmem
        · exact Or.inr hhigher
      next hsmall =>
        rw [show n = n % 10 by omega] at hc
        exact hdigit hc

/-- A character that is no digit does not stand among the digits of a number. -/
theorem notMem_digits {c : Char} (hc : ∀ digit < 10, c ≠ digitChar digit) (n : Nat) :
    c ∉ digits 10 n := by
  intro hmem
  rcases mem_digitsOnto hmem with hnil | ⟨digit, hdigit, hchar⟩
  · cases hnil
  · exact hc digit hdigit hchar

theorem notMem_decimal {c : Char} (hc : ∀ digit < 10, c ≠ digitChar digit) (hsign : c ≠ '-')
    (n : Int) : c ∉ (decimal n).toList := by
  rw [toList_decimal_eq]
  intro hmem
  rcases List.mem_append.mp hmem with hfirst | hdigits
  · split at hfirst
    · exact hsign (List.mem_singleton.mp hfirst)
    · cases hfirst
  · exact notMem_digits hc _ hdigits

theorem decimal_injective : Function.Injective decimal := by
  intro first second hsame
  have hlists : (if first < 0 then ['-'] else []) ++ digits 10 first.natAbs =
      (if second < 0 then ['-'] else []) ++ digits 10 second.natAbs := by
    rw [← toList_decimal_eq, ← toList_decimal_eq, hsame]
  have hminus (n : Nat) : '-' ∉ digits 10 n := notMem_digits (by decide) n
  by_cases hfirst : first < 0 <;> by_cases hsecond : second < 0 <;>
    simp only [hfirst, hsecond, ↓reduceIte, List.nil_append, List.singleton_append] at hlists
  · have := digits_injective (List.cons.inj hlists).2
    omega
  · exact absurd (hlists ▸ List.mem_cons_self) (hminus second.natAbs)
  · exact absurd (hlists ▸ List.mem_cons_self) (hminus first.natAbs)
  · have := digits_injective hlists
    omega

/-- A text in which a mark comes before the numeral can be read back from the last mark. -/
theorem append_mark_inj {mark : Char} {first second number place : List Char}
    (hnumber : mark ∉ number) (hplace : mark ∉ place)
    (hsame : first ++ mark :: number = second ++ mark :: place) :
    first = second ∧ number = place := by
  rcases List.append_eq_append_iff.mp hsame with ⟨middle, rfl, hmiddle⟩ | ⟨middle, rfl, hmiddle⟩
  · cases middle with
    | nil => simpa using hmiddle
    | cons c rest =>
        obtain ⟨-, rfl⟩ := List.cons.inj hmiddle
        simp at hnumber
  · cases middle with
    | nil => simpa [eq_comm] using hmiddle
    | cons c rest =>
        obtain ⟨-, rfl⟩ := List.cons.inj hmiddle
        simp at hplace

end ChainExtract.Numeral
