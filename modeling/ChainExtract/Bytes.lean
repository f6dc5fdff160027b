/-!
# Byte strings

Byte strings, their reading as big-endian numbers, and byte strings whose
length is part of their type: addresses and words.
-/

namespace ChainExtract

abbrev Bytes := List UInt8

namespace Bytes

/-- The number whose base-256 digits are the bytes, most significant first. -/
def toNat (bytes : Bytes) : Nat :=
  bytes.foldl (fun n byte => 256 * n + byte.toNat) 0

/-- The `len` lowest base-256 digits of `n`, most significant first. -/
def ofNat : (len n : Nat) → Bytes
  | 0, _ => []
  | len + 1, n => ofNat len (n / 256) ++ [UInt8.ofNat (n % 256)]

@[simp] theorem length_ofNat (len n : Nat) : (ofNat len n).length = len := by
  induction len generalizing n with
  | zero => rfl
  | succ len ih => simp [ofNat, ih]

/-- Writing a number that fits and reading it back gives the number. -/
theorem toNat_ofNat (len n : Nat) : (ofNat len n).toNat = n % Nat.pow 256 len := by
  induction len generalizing n with
  | zero => simp [ofNat, toNat, Nat.mod_one]
  | succ len ih =>
    have hsplit : n % Nat.pow 256 (len + 1) = 256 * (n / 256 % Nat.pow 256 len) + n % 256 := by
      have hpow : Nat.pow 256 (len + 1) = 256 * Nat.pow 256 len := Nat.mul_comm _ _
      rw [hpow, Nat.mod_mul]
      omega
    have hlast : (UInt8.ofNat (n % 256)).toNat = n % 256 := by simp
    simp only [toNat] at ih ⊢
    rw [ofNat, List.foldl_append, ih, hsplit]
    simp [hlast]

/-- The bytes followed by zeros, cut or filled to length `len`. -/
def padRight (len : Nat) (bytes : Bytes) : Bytes :=
  bytes.take len ++ List.replicate (len - bytes.length) 0

@[simp] theorem length_padRight (len : Nat) (bytes : Bytes) :
    (padRight len bytes).length = len := by
  simp [padRight]
  omega

end Bytes

/-- A byte string of exactly `n` bytes. -/
structure FixedBytes (n : Nat) where
  bytes : Bytes
  length_bytes : bytes.length = n
deriving DecidableEq

namespace FixedBytes

variable {n : Nat}

/-- The `n` lowest base-256 digits of a number. -/
def ofNat (n value : Nat) : FixedBytes n := ⟨Bytes.ofNat n value, Bytes.length_ofNat n value⟩

def zero (n : Nat) : FixedBytes n := ofNat n 0

/-- The bytes followed by zeros, cut or filled to length `n`. -/
def padRight (n : Nat) (bytes : Bytes) : FixedBytes n :=
  ⟨Bytes.padRight n bytes, Bytes.length_padRight n bytes⟩

/-- The number whose base-256 digits are the bytes. -/
def toNat (fixed : FixedBytes n) : Nat := fixed.bytes.toNat

@[ext] theorem ext {a b : FixedBytes n} (h : a.bytes = b.bytes) : a = b := by
  cases a
  cases b
  simp_all

end FixedBytes

/-- The address of an account or contract. -/
abbrev Address := FixedBytes 20

/-- A word of the chain: a hash or an event topic. -/
abbrev Word := FixedBytes 32

end ChainExtract
