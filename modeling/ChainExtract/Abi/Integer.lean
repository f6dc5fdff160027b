import ChainExtract.Bytes
import ChainExtract.Text.Numeral

/-!
# Integers of contracts

Integers of a program have no bounds, those of a contract fill a word at most.
Natural numbers cross over in their bytes. Signed ones are taken from their
decimal text, and go back as a sign and the bytes of a magnitude.
-/

namespace ChainExtract

namespace Bytes

/-- The base-256 digits of `n` without leading zeros, in front of `tail`. -/
def digitsOnto (n : Nat) (tail : Bytes) : Bytes :=
  if _h : 256 ≤ n then digitsOnto (n / 256) (UInt8.ofNat (n % 256) :: tail)
  else UInt8.ofNat n :: tail
termination_by n
decreasing_by exact Nat.div_lt_self (by omega) (by decide)

/-- The base-256 digits of a number, most significant first. Zero has one. -/
def digits (n : Nat) : Bytes := digitsOnto n []

end Bytes

namespace SolInteger

/-- The unsigned number of a word that an integer is, unless it is negative or
its bytes are too many. -/
def toUnsigned? (value : Int) : Option Nat :=
  if value < 0 then none
  else
    let bytes := Bytes.digits value.natAbs
    if bytes.length ≤ 32 then some bytes.toNat else none

/-- The signed number of a word with a sign and a magnitude. There is one more
negative number than there are positive ones. -/
def ofMagnitude? (negative : Bool) (magnitude : Nat) : Option Int :=
  if negative then if magnitude ≤ Nat.pow 2 255 then some (-magnitude) else none
  else if magnitude < Nat.pow 2 255 then some magnitude else none

/-- The signed number of a word that a decimal text spells. -/
def ofDecimal? (text : String) : Option Int :=
  match text.toList with
  | '-' :: cs => (Numeral.ofDigits? 10 cs).bind (ofMagnitude? true)
  | cs => (Numeral.ofDigits? 10 cs).bind (ofMagnitude? false)

/-- The signed number of a word that an integer is, if one has its decimal text. -/
def toSigned? (value : Int) : Option Int := ofDecimal? (Numeral.decimal value)

/-- The integer that the bytes of an unsigned number spell. -/
def ofUnsigned (value : Nat) : Int := Bytes.toNat (Bytes.ofNat 32 value)

/-- The integer with the sign and the magnitude of a signed number. -/
def ofSigned (value : Int) : Int :=
  let magnitude := ofUnsigned value.natAbs
  if value < 0 then -magnitude else magnitude

end SolInteger

end ChainExtract
