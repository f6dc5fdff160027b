import ChainExtract.Bytes.Hex
import ChainExtract.Hash.Keccak

/-!
# The text of an address

Forty hexadecimal digits whose letter case carries a checksum: a letter is
upper case if the digit at its place in the hash of the lower-case text is
eight or more.
-/

namespace ChainExtract.FixedBytes

/-- The hexadecimal digits of a byte string of fixed length, with the letter
case that its checksum asks for. -/
def checksumDigits {n : Nat} (fixed : FixedBytes n) : List Char :=
  let lower := fixed.bytes.hex
  let marks := (Keccak.hashText (String.ofList lower)).bytes.flatMap fun byte =>
    [decide (8 ≤ byte.toNat / 16), decide (8 ≤ byte.toNat % 16)]
  lower.zipWith (fun c mark => if mark then c.toUpper else c) marks

/-- The checksummed text of an address. -/
def checksumText (address : Address) : String :=
  "0x" ++ String.ofList address.checksumDigits

end ChainExtract.FixedBytes
