import ChainExtract.Text.Utf8
import Mathlib.Tactic.Common
import Mathlib.Tactic.IntervalCases

/-! # Texts as bytes

The bytes of a text are read as the text, although the reader accepts any bytes.
-/

namespace ChainExtract.Utf8

theorem toNat_ofNat_of_lt {n : Nat} (hn : n < 256) : (UInt8.ofNat n).toNat = n := by
  simp [Nat.mod_eq_of_lt hn]

/-! ## First bytes -/

theorem lead?_one {n : Nat} (hn : n < 128) :
    lead? (UInt8.ofNat n) = some ⟨n, 0, 0x80, 0xBF⟩ := by
  simp only [lead?, toNat_ofNat_of_lt (show n < 256 by omega), hn, ↓reduceIte]

theorem lead?_two {n : Nat} (hlow : 2 ≤ n) (hhigh : n < 32) :
    lead? (UInt8.ofNat (n + 0xC0)) = some ⟨n, 1, 0x80, 0xBF⟩ := by
  interval_cases n <;> rfl

/-- The bounds of the second of three bytes keep overlong forms and surrogates out. -/
theorem lead?_three {n : Nat} (hn : n < 16) : lead? (UInt8.ofNat (n + 0xE0)) =
    some ⟨n, 2, if n = 0 then 0xA0 else 0x80, if n = 13 then 0x9F else 0xBF⟩ := by
  interval_cases n <;> rfl

/-- The bounds of the second of four bytes keep overlong forms and numbers past the last character
out. -/
theorem lead?_four {n : Nat} (hn : n < 5) : lead? (UInt8.ofNat (n + 0xF0)) =
    some ⟨n, 3, if n = 0 then 0x90 else 0x80, if n = 4 then 0x8F else 0xBF⟩ := by
  interval_cases n <;> rfl

/-! ## Reading on -/

theorem decodeFrom_of_step {state next : Option Partial} {byte : UInt8} {settled : List Char}
    (hstep : step state byte = (next, settled)) (rest : Bytes) :
    decodeFrom state (byte :: rest) = settled ++ decodeFrom next rest := by
  rw [decodeFrom, hstep]

theorem decodeFrom_first {byte low high : UInt8} {payload following : Nat}
    (hlead : lead? byte = some ⟨payload, following, low, high⟩) (hmore : following ≠ 0)
    (rest : Bytes) :
    decodeFrom none (byte :: rest) = decodeFrom (some ⟨payload, following, low, high⟩) rest := by
  have hstep : step none byte = (some ⟨payload, following, low, high⟩, []) := by
    simp only [step, start, hlead, if_neg hmore]
  rw [decodeFrom_of_step hstep, List.nil_append]

theorem decodeFrom_next {payload missing n : Nat} {low high : UInt8} (hmissing : missing ≠ 1)
    (hn : n < 64) (hlow : low.toNat ≤ n + 0x80) (hhigh : n + 0x80 ≤ high.toNat) (rest : Bytes) :
    decodeFrom (some ⟨payload, missing, low, high⟩) (UInt8.ofNat (n + 0x80) :: rest) =
      decodeFrom (some ⟨64 * payload + n, missing - 1, 0x80, 0xBF⟩) rest := by
  have hbyte := toNat_ofNat_of_lt (show n + 0x80 < 256 by omega)
  have hbounds : low ≤ UInt8.ofNat (n + 0x80) ∧ UInt8.ofNat (n + 0x80) ≤ high := by
    rw [UInt8.le_iff_toNat_le, UInt8.le_iff_toNat_le, hbyte]
    exact ⟨hlow, hhigh⟩
  have hstep : step (some ⟨payload, missing, low, high⟩) (UInt8.ofNat (n + 0x80)) =
      (some ⟨64 * payload + n, missing - 1, 0x80, 0xBF⟩, []) := by
    simp only [step, if_pos hbounds, if_neg hmissing, hbyte, Nat.add_sub_cancel]
  rw [decodeFrom_of_step hstep, List.nil_append]

theorem decodeFrom_last {payload n : Nat} {low high : UInt8} (hn : n < 64)
    (hlow : low.toNat ≤ n + 0x80) (hhigh : n + 0x80 ≤ high.toNat) (rest : Bytes) :
    decodeFrom (some ⟨payload, 1, low, high⟩) (UInt8.ofNat (n + 0x80) :: rest) =
      Char.ofNat (64 * payload + n) :: decodeFrom none rest := by
  have hbyte := toNat_ofNat_of_lt (show n + 0x80 < 256 by omega)
  have hbounds : low ≤ UInt8.ofNat (n + 0x80) ∧ UInt8.ofNat (n + 0x80) ≤ high := by
    rw [UInt8.le_iff_toNat_le, UInt8.le_iff_toNat_le, hbyte]
    exact ⟨hlow, hhigh⟩
  have hstep : step (some ⟨payload, 1, low, high⟩) (UInt8.ofNat (n + 0x80)) =
      (none, [Char.ofNat (64 * payload + n)]) := by
    simp only [step, if_pos hbounds, ↓reduceIte, hbyte, Nat.add_sub_cancel]
  rw [decodeFrom_of_step hstep, List.singleton_append]

/-! ## Characters -/

theorem decodeFrom_one {n : Nat} (hn : n ≤ 0x7f) (rest : Bytes) :
    decodeFrom none (UInt8.ofNat n :: rest) = Char.ofNat n :: decodeFrom none rest := by
  have hstep : step none (UInt8.ofNat n) = (none, [Char.ofNat n]) := by
    simp only [step, start, lead?_one (show n < 128 by omega), ↓reduceIte]
  rw [decodeFrom_of_step hstep, List.singleton_append]

theorem decodeFrom_two {n : Nat} (hlow : 0x7f < n) (hhigh : n ≤ 0x7ff) (rest : Bytes) :
    decodeFrom none (UInt8.ofNat (n / 64 % 0x20 + 0xC0) :: UInt8.ofNat (n % 0x40 + 0x80) :: rest) =
      Char.ofNat n :: decodeFrom none rest := by
  have hlead := lead?_two (n := n / 64 % 0x20) (by omega) (by omega)
  have hvalue : 64 * (n / 64 % 0x20) + n % 0x40 = n := by omega
  rw [decodeFrom_first hlead one_ne_zero,
    decodeFrom_last (by omega) (by simp) (by simp; omega), hvalue]

theorem decodeFrom_three {n : Nat} (hlow : 0x7ff < n) (hhigh : n ≤ 0xffff)
    (hsurrogate : n < 0xD800 ∨ 0xDFFF < n) (rest : Bytes) :
    decodeFrom none (UInt8.ofNat (n / 4096 % 0x10 + 0xE0) ::
        UInt8.ofNat (n / 64 % 0x40 + 0x80) :: UInt8.ofNat (n % 0x40 + 0x80) :: rest) =
      Char.ofNat n :: decodeFrom none rest := by
  have hlead := lead?_three (n := n / 4096 % 0x10) (by omega)
  have hvalue : 64 * (64 * (n / 4096 % 0x10) + n / 64 % 0x40) + n % 0x40 = n := by omega
  rw [decodeFrom_first hlead two_ne_zero, decodeFrom_next (by decide) (by omega) ?_ ?_,
    decodeFrom_last (by omega) (by simp) (by simp; omega), hvalue]
  · split
    · change 0xA0 ≤ _
      omega
    · change 0x80 ≤ _
      omega
  · split
    · change _ ≤ 0x9F
      omega
    · change _ ≤ 0xBF
      omega

theorem decodeFrom_four {n : Nat} (hlow : 0xffff < n) (hhigh : n < 0x110000) (rest : Bytes) :
    decodeFrom none (UInt8.ofNat (n / 262144 % 0x08 + 0xF0) ::
        UInt8.ofNat (n / 4096 % 0x40 + 0x80) :: UInt8.ofNat (n / 64 % 0x40 + 0x80) ::
        UInt8.ofNat (n % 0x40 + 0x80) :: rest) =
      Char.ofNat n :: decodeFrom none rest := by
  have hlead := lead?_four (n := n / 262144 % 0x08) (by omega)
  have hvalue : 64 * (64 * (64 * (n / 262144 % 0x08) + n / 4096 % 0x40) + n / 64 % 0x40) +
      n % 0x40 = n := by omega
  rw [decodeFrom_first hlead three_ne_zero, decodeFrom_next (by decide) (by omega) ?_ ?_,
    decodeFrom_next (by decide) (by omega) (by simp) (by simp; omega),
    decodeFrom_last (by omega) (by simp) (by simp; omega), hvalue]
  · split
    · change 0x90 ≤ _
      omega
    · change 0x80 ≤ _
      omega
  · split
    · change _ ≤ 0x8F
      omega
    · change _ ≤ 0xBF
      omega

/-- The bytes of a character are read as the character. -/
theorem decodeFrom_utf8EncodeChar (c : Char) (rest : Bytes) :
    decodeFrom none (String.utf8EncodeChar c ++ rest) = c :: decodeFrom none rest := by
  have hvalid : c.toNat < 0xD800 ∨ 0xDFFF < c.toNat ∧ c.toNat < 0x110000 := c.valid
  have hval : c.val.toNat = c.toNat := rfl
  have hchar : Char.ofNat c.toNat = c := Char.ofNat_toNat c
  conv => rhs; rw [← hchar]
  rw [String.utf8EncodeChar]
  change decodeFrom none ((if c.toNat ≤ 0x7f then _ else
    if c.toNat ≤ 0x7ff then _ else if c.toNat ≤ 0xffff then _ else _) ++ rest) = _
  split
  next hone => exact decodeFrom_one hone rest
  split
  next htwo => exact decodeFrom_two (by omega) htwo rest
  split
  next hthree => exact decodeFrom_three (by omega) hthree (by omega) rest
  next hfour => exact decodeFrom_four (by omega) (by omega) rest

/-! ## Texts -/

theorem decodeFrom_flatMap (cs : List Char) :
    decodeFrom none (cs.flatMap String.utf8EncodeChar) = cs := by
  induction cs with
  | nil => rfl
  | cons c cs ih => rw [List.flatMap_cons, decodeFrom_utf8EncodeChar, ih]

theorem toList_loop (data : ByteArray) (i : Nat) (read : Bytes) :
    ByteArray.toList.loop data i read = read.reverse ++ data.data.toList.drop i := by
  fun_induction ByteArray.toList.loop data i read with
  | case1 i read hmore ih =>
      have hlt : i < data.data.toList.length := by simpa using hmore
      rw [ih, List.drop_eq_getElem_cons hlt]
      simp [ByteArray.get!, hmore]
  | case2 i read hend =>
      rw [List.drop_eq_nil_of_le (by simpa using Nat.le_of_not_lt hend)]
      simp

theorem toList_toByteArray (bytes : Bytes) : bytes.toByteArray.toList = bytes := by
  rw [ByteArray.toList, toList_loop, List.toList_data_toByteArray, List.reverse_nil,
    List.nil_append, List.drop_zero]

theorem encode_eq_flatMap (text : String) :
    encode text = text.toList.flatMap String.utf8EncodeChar := by
  have hbytes : text.toUTF8 = (text.toList.flatMap String.utf8EncodeChar).toByteArray := by
    rw [← List.utf8Encode, ← String.toByteArray_ofList]
    simp
  rw [encode, hbytes, toList_toByteArray]

/-- The bytes of a text are read as the text. -/
theorem decodeLossy_encode (text : String) : decodeLossy (encode text) = text := by
  rw [decodeLossy, encode_eq_flatMap, decodeFrom_flatMap, String.ofList_toList]

end ChainExtract.Utf8
