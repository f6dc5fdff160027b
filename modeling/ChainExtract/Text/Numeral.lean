/-!
# Numerals

Integers written and read in a radix of up to thirty-six, with the letters of
the alphabet as the digits past nine.
-/

namespace ChainExtract.Numeral

/-- The digit of value `d`: a figure, then a lower-case letter. -/
def digitChar (d : Nat) : Char :=
  if d < 10 then Char.ofNat ('0'.toNat + d) else Char.ofNat ('a'.toNat + (d - 10))

/-- The value of a digit below `radix`; letters count in either case. -/
def digitValue? (radix : Nat) (c : Char) : Option Nat :=
  let value? :=
    if '0' ≤ c ∧ c ≤ '9' then some (c.toNat - '0'.toNat)
    else if 'a' ≤ c ∧ c ≤ 'z' then some (c.toNat - 'a'.toNat + 10)
    else if 'A' ≤ c ∧ c ≤ 'Z' then some (c.toNat - 'A'.toNat + 10)
    else none
  value?.filter (· < radix)

/-- The digits of `n`, most significant first, in front of `tail`. -/
def digitsOnto (radix n : Nat) (tail : List Char) : List Char :=
  if _h : 2 ≤ radix ∧ radix ≤ n then
    digitsOnto radix (n / radix) (digitChar (n % radix) :: tail)
  else
    digitChar n :: tail
termination_by n
decreasing_by exact Nat.div_lt_self (by omega) (by omega)

/-- The digits of a natural number in the given radix, without leading zeros. -/
def digits (radix n : Nat) : List Char := digitsOnto radix n []

/-- An integer in the given radix, with a minus sign if it is negative and
with `mark` between the sign and the digits. -/
def text (radix : Nat) (n : Int) (mark : String) : String :=
  let body := mark ++ String.ofList (digits radix n.natAbs)
  if n < 0 then "-" ++ body else body

/-- The decimal text of an integer. -/
def decimal (n : Int) : String := text 10 n ""

/-- The number written by a nonempty string of digits. -/
def ofDigits? (radix : Nat) : List Char → Option Nat
  | [] => none
  | cs => cs.foldlM (fun n c => (digitValue? radix c).map (radix * n + ·)) 0

end ChainExtract.Numeral
