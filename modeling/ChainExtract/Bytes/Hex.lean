import ChainExtract.Bytes
import ChainExtract.Text.Numeral

/-!
# Hexadecimal text

Two lower-case hexadecimal digits per byte. Reading accepts either case.
-/

namespace ChainExtract

namespace Bytes

/-- The two hexadecimal digits of a byte. -/
def hexDigits (byte : UInt8) : List Char :=
  [Numeral.digitChar (byte.toNat / 16), Numeral.digitChar (byte.toNat % 16)]

/-- The hexadecimal digits of a byte string, without any mark in front. -/
def hex (bytes : Bytes) : List Char := bytes.flatMap hexDigits

/-- The hexadecimal text of a byte string, marked by `0x`. -/
def text (bytes : Bytes) : String := "0x" ++ String.ofList bytes.hex

/-- Reads pairs of hexadecimal digits. -/
def ofHex? : List Char → Option Bytes
  | [] => some []
  | [_] => none
  | high :: low :: rest => do
    let h ← Numeral.digitValue? 16 high
    let l ← Numeral.digitValue? 16 low
    let bytes ← ofHex? rest
    return UInt8.ofNat (16 * h + l) :: bytes

end Bytes

/-- The hexadecimal text of a byte string of fixed length, marked by `0x`. -/
def FixedBytes.text {n : Nat} (fixed : FixedBytes n) : String := fixed.bytes.text

end ChainExtract
