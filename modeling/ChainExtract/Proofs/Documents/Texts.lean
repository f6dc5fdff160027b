import ChainExtract.Json.Tree
import ChainExtract.Proofs.Abi.Values
import Mathlib.Data.List.TakeWhile

/-! # Words, numbers and strings of JSON texts

What is read of a text is settled at the latest by the character behind it.
-/

namespace ChainExtract

variable {α β : Type}

/-- Reads the beginning of a text, and leaves the rest of it. -/
abbrev TextReader (α : Type) := List Char → Except JsonFault (α × List Char)

/-- What is read of the text is read of every text that begins with it and goes on with the same
character. -/
def SettledAt (read : TextReader α) (cs : List Char) : Prop :=
  ∀ a rest, read cs = .ok (a, rest) → ∃ taken, cs = taken ++ rest ∧
    ∀ other, other.head? = rest.head? → read (taken ++ other) = .ok (a, other)

def LooksOneAhead (read : TextReader α) : Prop := ∀ cs, SettledAt read cs

/-- Leaves out the first character. -/
def behindFirst (read : TextReader α) : TextReader α
  | [] => .error .unfinished
  | _ :: cs => read cs

theorem head?_append_congr {other rest : List Char} (taken : List Char)
    (hnext : other.head? = rest.head?) : (taken ++ other).head? = (taken ++ rest).head? := by
  simp [List.head?_append, hnext]

namespace LooksOneAhead

theorem ok (a : α) : LooksOneAhead fun cs => .ok (a, cs) := by
  rintro cs _ _ ⟨⟩
  exact ⟨[], rfl, fun _ _ => rfl⟩

theorem error (fault : JsonFault) : LooksOneAhead (α := α) fun _ => .error fault := by
  rintro _ _ _ ⟨⟩

theorem bind {first : TextReader α} {next : α × List Char → Except JsonFault (β × List Char)}
    (hfirst : LooksOneAhead first) (hnext : ∀ a, LooksOneAhead fun cs => next (a, cs)) :
    LooksOneAhead fun cs => first cs >>= next := by
  intro cs b rest hread
  obtain ⟨⟨a, middle⟩, hmiddle, hlast⟩ := exists_of_bind_ok hread
  obtain ⟨taken, rfl, htaken⟩ := hfirst _ _ _ hmiddle
  obtain ⟨further, rfl, hfurther⟩ := hnext a _ _ _ hlast
  refine ⟨taken ++ further, by rw [List.append_assoc], fun other hother => ?_⟩
  simp only [List.append_assoc]
  rw [htaken _ (head?_append_congr further hother)]
  exact hfurther other hother

theorem ite {p : Prop} [Decidable p] {read other : TextReader α} (hread : LooksOneAhead read)
    (hother : LooksOneAhead other) : LooksOneAhead fun cs => if p then read cs else other cs := by
  by_cases hp : p <;> simpa only [hp, if_true, if_false]

theorem behindFirst {read : TextReader α} (hread : LooksOneAhead read) :
    LooksOneAhead (behindFirst read) := by
  intro cs a rest hok
  rcases cs with _ | ⟨c, cs⟩
  · cases hok
  · obtain ⟨taken, rfl, htaken⟩ := hread _ _ _ hok
    exact ⟨c :: taken, rfl, htaken⟩

/-- Which reader reads a text may depend on its first character. -/
theorem of_head {read alike : TextReader α} {cs : List Char} (halike : LooksOneAhead alike)
    (hread : ∀ other, other.head? = cs.head? → read other = alike other) : SettledAt read cs := by
  intro a rest hok
  rw [hread cs rfl] at hok
  obtain ⟨taken, rfl, htaken⟩ := halike _ _ _ hok
  refine ⟨taken, rfl, fun other hother => ?_⟩
  rw [hread _ (head?_append_congr taken hother)]
  exact htaken other hother

theorem of_cons {read after : TextReader α} {c : Char} (hafter : LooksOneAhead after)
    (hread : ∀ cs, read (c :: cs) = after cs) (cs : List Char) : SettledAt read (c :: cs) := by
  refine hafter.behindFirst.of_head fun other hother => ?_
  obtain ⟨other, rfl⟩ := List.head?_eq_some_iff.mp hother
  exact hread other

end LooksOneAhead

theorem takeWhile_append_of_head {p : Char → Bool} {cs other : List Char}
    (hnext : other.head? = (cs.dropWhile p).head?) :
    (cs.takeWhile p ++ other).takeWhile p = cs.takeWhile p ∧
      (cs.takeWhile p ++ other).dropWhile p = other := by
  have hall : ∀ c ∈ cs.takeWhile p, p c = true := fun c hc => List.mem_takeWhile_imp hc
  -- the character behind is the one that has stopped the first text
  have hstop : ∀ c ∈ other.head?, p c = false := by
    intro c hc
    rw [hnext] at hc
    have hnot := List.head?_dropWhile_not p cs
    rw [Option.mem_def.mp hc] at hnot
    simpa using hnot
  rw [List.takeWhile_append_of_pos hall, List.dropWhile_append_of_pos hall]
  cases other with
  | nil => simp
  | cons c other => simp [hstop c rfl]

namespace JsonNumber

theorem looksOneAhead_digits : LooksOneAhead digits := by
  intro cs figures rest hread
  have hsplit : figures = cs.takeWhile Char.isDigit ∧ rest = cs.dropWhile Char.isDigit ∧
      figures ≠ [] := by
    unfold digits at hread
    split at hread <;> cases hread
    exact ⟨rfl, rfl, by assumption⟩
  obtain ⟨rfl, rfl, hsome⟩ := hsplit
  refine ⟨_, List.takeWhile_append_dropWhile.symm, fun other hother => ?_⟩
  obtain ⟨htake, hdrop⟩ := takeWhile_append_of_head hother
  rw [digits, htake, hdrop]
  split
  · contradiction
  · contradiction
  · rfl

theorem looksOneAhead_wholePart : LooksOneAhead wholePart := by
  refine looksOneAhead_digits.bind fun whole => ?_
  dsimp only
  split
  · exact .error _
  · exact .ok whole

theorem looksOneAhead_fractionPart : LooksOneAhead fractionPart := by
  intro cs
  by_cases hpoint : cs.head? = some '.'
  · obtain ⟨cs, rfl⟩ := List.head?_eq_some_iff.mp hpoint
    exact (looksOneAhead_digits.bind fun a => .ok (some a)).of_cons (fun _ => rfl) cs
  · refine (LooksOneAhead.ok none).of_head fun other hother => ?_
    unfold fractionPart
    split
    next => exact absurd hother.symm hpoint
    next => rfl

/-- Reads the digits of an exponent with a sign, if there is one. -/
def signedDigits : TextReader (Option Int) := fun cs => do
  let (negative, cs) := Binary64.signed cs
  let (exponent, rest) ← digits cs
  let n : Int := Binary64.figures exponent
  return (some (if negative then -n else n), rest)

theorem looksOneAhead_signedDigits : LooksOneAhead signedDigits := by
  have hdigits (negative : Bool) : LooksOneAhead fun cs => digits cs >>= fun (exponent, rest) =>
      let n : Int := Binary64.figures exponent
      .ok (some (if negative then -n else n), rest) :=
    looksOneAhead_digits.bind fun exponent => .ok _
  intro cs
  rcases cs with _ | ⟨c, cs⟩
  · refine (hdigits false).of_head fun other hother => ?_
    rw [List.head?_eq_none_iff.mp hother]
    rfl
  by_cases hminus : c = '-'
  · subst hminus
    exact (hdigits true).of_cons (fun _ => rfl) cs
  by_cases hplus : c = '+'
  · subst hplus
    exact (hdigits false).of_cons (fun _ => rfl) cs
  · refine (hdigits false).of_head fun other hother => ?_
    obtain ⟨other, rfl⟩ := List.head?_eq_some_iff.mp hother
    have hsigned : Binary64.signed (c :: other) = (false, c :: other) := by
      unfold Binary64.signed
      split <;> simp_all
    rw [signedDigits, hsigned]
    rfl

theorem looksOneAhead_exponentPart : LooksOneAhead exponentPart := by
  intro cs
  rcases cs with _ | ⟨c, cs⟩
  · refine (LooksOneAhead.ok none).of_head fun other hother => ?_
    rw [List.head?_eq_none_iff.mp hother]
    rfl
  by_cases hletter : c = 'e' ∨ c = 'E'
  · exact looksOneAhead_signedDigits.of_cons (fun _ => if_pos hletter) cs
  · refine (LooksOneAhead.ok none).of_head fun other hother => ?_
    obtain ⟨other, rfl⟩ := List.head?_eq_some_iff.mp hother
    exact if_neg hletter

theorem looksOneAhead_unsigned (negative : Bool) : LooksOneAhead (unsigned negative) := by
  refine looksOneAhead_wholePart.bind fun whole =>
    looksOneAhead_fractionPart.bind fun fraction? =>
      looksOneAhead_exponentPart.bind fun exponent? => ?_
  dsimp only
  split
  · exact .ok _
  · exact .error _

end JsonNumber

namespace Numeral

theorem utf8Size_of_digitValue? {radix value : Nat} {c : Char}
    (hdigit : digitValue? radix c = some value) : c.utf8Size = 1 := by
  have hsmall : c.val ≤ 127 := by
    simp only [digitValue?, Option.filter_eq_some_iff] at hdigit
    obtain ⟨hrange, _⟩ := hdigit
    split at hrange
    next hfigure => exact UInt32.le_trans hfigure.2 (by decide)
    split at hrange
    next hletter => exact UInt32.le_trans hletter.2 (by decide)
    split at hrange
    next hcapital => exact UInt32.le_trans hcapital.2 (by decide)
    next => cases hrange
  exact Char.utf8Size_eq_one_iff.mpr hsmall

/-- Digits take one byte each. -/
theorem utf8Size_of_ofDigits? {radix n : Nat} {cs : List Char}
    (hdigits : ofDigits? radix cs = some n) : ∀ c ∈ cs, c.utf8Size = 1 := by
  have hfold (start : Nat) (hfold : cs.foldlM (fun n c =>
      (digitValue? radix c).map (radix * n + ·)) start = some n) : ∀ c ∈ cs, c.utf8Size = 1 := by
    clear hdigits
    induction cs generalizing start with
    | nil => simp
    | cons c cs ih =>
        simp only [List.foldlM_cons, Option.bind_eq_bind, Option.bind_eq_some_iff,
          Option.map_eq_some_iff] at hfold
        obtain ⟨next, ⟨value, hvalue, _⟩, hrest⟩ := hfold
        exact List.forall_mem_cons.mpr ⟨utf8Size_of_digitValue? hvalue, ih next hrest⟩
  cases cs with
  | nil => simp
  | cons c cs => exact hfold 0 hdigits

end Numeral

namespace JsonTree

theorem word_eq_ok_iff {expected cs rest : List Char} :
    word expected cs = .ok rest ↔ cs = expected ++ rest := by
  induction expected generalizing cs with
  | nil => simp [word]
  | cons e expected ih =>
      cases cs with
      | nil => simp [word]
      | cons c cs =>
          by_cases hc : c = e <;> simp [word, hc, ih]

theorem looksOneAhead_word_bind (name : List Char) {next : TextReader α}
    (hnext : LooksOneAhead next) : LooksOneAhead fun cs => word name cs >>= next := by
  intro cs a rest hread
  obtain ⟨middle, hmiddle, hlast⟩ := exists_of_bind_ok hread
  obtain ⟨taken, rfl, htaken⟩ := hnext _ _ _ hlast
  obtain rfl := word_eq_ok_iff.mp hmiddle
  refine ⟨name ++ taken, by rw [List.append_assoc], fun other hother => ?_⟩
  simp only [List.append_assoc]
  rw [word_eq_ok_iff.mpr rfl]
  exact htaken other hother

theorem sizes_of_singles {cs : List Char} (hsingle : ∀ c ∈ cs, c.utf8Size = 1) (start : Nat) :
    cs.foldl (fun size c => size + c.utf8Size) start = start + cs.length := by
  induction cs generalizing start with
  | nil => rfl
  | cons c cs ih =>
      rw [List.foldl_cons, ih (List.forall_mem_cons.mp hsingle).2, hsingle c List.mem_cons_self,
        List.length_cons]
      omega

theorem looksOneAhead_codeUnit : LooksOneAhead codeUnit := by
  intro cs n rest hread
  simp only [codeUnit] at hread
  split at hread
  next => cases hread
  next hlong =>
    split at hread
    next hdigits =>
      cases hread
      -- four bytes are taken, and they are four characters since they are digits
      have hsizes := sizes_of_singles (Numeral.utf8Size_of_ofDigits? hdigits) 0
      have hlength : (cs.take 4).length = 4 := by
        have hmost : (cs.take 4).length ≤ 4 := List.length_take_le 4 cs
        omega
      refine ⟨cs.take 4, (List.take_append_drop 4 cs).symm, fun other _ => ?_⟩
      have htake : (cs.take 4 ++ other).take 4 = cs.take 4 := by
        rw [List.take_append_of_le_length hlength.ge, List.take_take, Nat.min_self]
      have hdrop : (cs.take 4 ++ other).drop 4 = other := by
        rw [List.drop_append_of_le_length hlength.ge, List.drop_take]
        simp
      simp only [codeUnit, htake, hdrop, hdigits, if_neg hlong]
    next => cases hread

theorem looksOneAhead_numberedChar : LooksOneAhead numberedChar :=
  looksOneAhead_codeUnit.bind fun _ => (LooksOneAhead.error _).ite <| (LooksOneAhead.ok _).ite <|
    looksOneAhead_word_bind _ <| looksOneAhead_codeUnit.bind fun _ =>
      (LooksOneAhead.error _).ite (.ok _)

theorem looksOneAhead_escapedChar : LooksOneAhead escapedChar := by
  intro cs c rest hread
  rcases cs with _ | ⟨first, cs⟩
  · cases hread
  by_cases hnumber : first = 'u'
  · subst hnumber
    exact looksOneAhead_numberedChar.of_cons (fun _ => rfl) cs c rest hread
  · -- every other escape is one character, which alone decides what is read
    simp only [escapedChar] at hread
    have hsame : rest = cs ∧ ∀ other, escapedChar (first :: other) = .ok (c, other) := by
      simp only [escapedChar]
      split at hread <;> first | contradiction | (cases hread; exact ⟨rfl, fun _ => rfl⟩)
    obtain ⟨rfl, hsame⟩ := hsame
    exact ⟨[first], rfl, fun other _ => hsame other⟩

/-- The character of a string that begins with `c` in the text. -/
def stringChar (c : Char) : TextReader Char := fun cs =>
  if c = '\\' then escapedChar cs else pure (c, cs)

theorem looksOneAhead_stringChar (c : Char) : LooksOneAhead (stringChar c) :=
  looksOneAhead_escapedChar.ite (.ok c)

theorem stringChars_cons {c : Char} (hquote : c ≠ '"') (hcontrol : ¬ c.toNat < 32) (fuel : Nat)
    (cs : List Char) : stringChars (fuel + 1) (c :: cs) = do
      let (c, cs) ← stringChar c cs
      let (chars, rest) ← stringChars fuel cs
      return (c :: chars, rest) := by
  rw [stringChars, if_neg hquote, if_neg hcontrol, stringChar]
  split <;> rfl

theorem stringChars_eq_ok {fuel : Nat} {cs chars rest : List Char}
    (hread : stringChars fuel cs = .ok (chars, rest)) :
    ∃ taken, cs = taken ++ rest ∧ ∀ other fuel, other.head? = rest.head? → taken.length ≤ fuel →
      stringChars fuel (taken ++ other) = .ok (chars, other) := by
  induction fuel generalizing cs chars with
  | zero => cases hread
  | succ fuel ih =>
      rcases cs with _ | ⟨c, cs⟩
      · cases hread
      by_cases hquote : c = '"'
      · subst hquote
        cases hread
        refine ⟨['"'], rfl, fun other fuel _ hfuel => ?_⟩
        obtain ⟨fuel, rfl⟩ := Nat.exists_eq_add_of_le' hfuel
        rfl
      have hcontrol : ¬ c.toNat < 32 := by
        intro hcontrol
        rw [stringChars, if_neg hquote, if_pos hcontrol] at hread
        cases hread
      rw [stringChars_cons hquote hcontrol] at hread
      obtain ⟨⟨first, middle⟩, hfirst, hread⟩ := exists_of_bind_ok hread
      obtain ⟨⟨later, last⟩, hlater, hreturn⟩ := exists_of_bind_ok hread
      cases hreturn
      -- the room that is left matters no more than that it is enough for what is taken
      obtain ⟨one, rfl, hone⟩ := looksOneAhead_stringChar c _ _ _ hfirst
      obtain ⟨more, rfl, hmore⟩ := ih hlater
      refine ⟨c :: (one ++ more), by simp, fun other fuel hother hfuel => ?_⟩
      rw [List.length_cons, List.length_append] at hfuel
      obtain ⟨fuel, rfl⟩ := Nat.exists_eq_add_of_le' (Nat.le_of_add_left_le hfuel)
      rw [List.cons_append, List.append_assoc, stringChars_cons hquote hcontrol,
        hone _ (head?_append_congr more hother)]
      change (stringChars fuel (more ++ other) >>= _) = _
      rw [hmore other fuel hother (by omega)]
      rfl

theorem looksOneAhead_string : LooksOneAhead string := by
  intro cs s rest hread
  obtain ⟨⟨chars, middle⟩, hchars, hreturn⟩ := exists_of_bind_ok hread
  cases hreturn
  obtain ⟨taken, rfl, htaken⟩ := stringChars_eq_ok hchars
  refine ⟨taken, rfl, fun other hother => ?_⟩
  rw [string, htaken other _ hother (by simp)]
  rfl

end JsonTree

end ChainExtract
