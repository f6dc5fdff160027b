/-!
# Binary floating-point numbers

The numbers of the 64-bit binary format, as mantissas and exponents, and the
rounding of exact ratios and decimals to the nearest of them, ties to even.
-/

namespace ChainExtract

/-- A number of the 64-bit binary format. A finite one is `mantissa * 2 ^ exponent`
with a mantissa below `2 ^ 53`, and at least `2 ^ 52` unless the exponent is
the least one, `-1074`. -/
inductive Binary64 where
  | nan
  | infinite (negative : Bool)
  | finite (negative : Bool) (mantissa : Nat) (exponent : Int)
deriving DecidableEq, Repr

namespace Binary64

/-- The least exponent of a finite number. -/
def minExponent : Int := -1074

/-- The greatest exponent of a finite number. -/
def maxExponent : Int := 971

/-- Zero with a sign. -/
def zero (negative : Bool) : Binary64 := finite negative 0 minExponent

/-- The natural number nearest to `num / den`, ties to even. -/
def divNearest (num den : Nat) : Nat :=
  let quotient := num / den
  let rest := num % den
  if 2 * rest < den then quotient
  else if 2 * rest = den ∧ quotient % 2 = 0 then quotient
  else quotient + 1

/-- The ratio `num / den` divided by `2 ^ exponent`, as a ratio. -/
def scaled (num den : Nat) (exponent : Int) : Nat × Nat :=
  if 0 ≤ exponent then (num, den <<< exponent.toNat) else (num <<< (-exponent).toNat, den)

/-- The greatest exponent whose power of two is not above `num / den`. -/
def floorLog2 (num den : Nat) : Int :=
  let guess : Int := (Nat.log2 num : Int) - Nat.log2 den
  let (n, d) := scaled num den guess
  if d ≤ n then guess else guess - 1

/-- The number nearest to the positive ratio `num / den`, ties to even;
infinite from half a step above the greatest finite number on. -/
def ofPositiveRatio (negative : Bool) (num den : Nat) : Binary64 :=
  let exponent := max (floorLog2 num den - 52) minExponent
  let (n, d) := scaled num den exponent
  let mantissa := divNearest n d
  let (mantissa, exponent) :=
    if mantissa = Nat.pow 2 53 then (Nat.pow 2 52, exponent + 1) else (mantissa, exponent)
  if maxExponent < exponent then infinite negative else finite negative mantissa exponent

/-- The number nearest to an integer. -/
def ofInt (n : Int) : Binary64 :=
  if n = 0 then zero false else ofPositiveRatio (decide (n < 0)) n.natAbs 1

/-- The number of decimal digits of a natural number, none for zero. -/
def digitCount (n : Nat) : Nat := if n = 0 then 0 else (Nat.toDigits 10 n).length

/-- The number nearest to `digits * 10 ^ exponent` with a sign. Numbers beyond
every finite one, or below half of the least positive one, are settled by
their magnitude. -/
def ofDecimal (negative : Bool) (digits : Nat) (exponent : Int) : Binary64 :=
  let magnitude : Int := digitCount digits + exponent
  if digits = 0 ∨ magnitude < -330 then zero negative
  else if 310 < magnitude then infinite negative
  else if 0 ≤ exponent then ofPositiveRatio negative (digits * Nat.pow 10 exponent.toNat) 1
  else ofPositiveRatio negative digits (Nat.pow 10 (-exponent).toNat)

/-- Whether the number is neither infinite nor undefined. -/
def isFinite : Binary64 → Bool
  | finite _ _ _ => true
  | nan | infinite _ => false

/-- Reads a sign, if there is one: whether it is a minus, and what follows. -/
def signed : List Char → Bool × List Char
  | '-' :: cs => (true, cs)
  | '+' :: cs => (false, cs)
  | cs => (false, cs)

/-- The value of a string of figures. -/
def figures (cs : List Char) : Nat := cs.foldl (fun n c => 10 * n + (c.toNat - '0'.toNat)) 0

/-- Reads the exponent of a decimal, which may be missing altogether. -/
def decimalExponent? : List Char → Option Int
  | [] => some 0
  | c :: cs =>
    let (negative, rest) := signed cs
    if (c = 'e' ∨ c = 'E') ∧ !rest.isEmpty ∧ rest.all Char.isDigit then
      some (if negative then -(figures rest : Int) else figures rest)
    else none

/-- Reads an unsigned decimal: figures with a point anywhere among them, and
an exponent. -/
def decimal? (negative : Bool) (cs : List Char) : Option Binary64 := do
  let whole := cs.takeWhile Char.isDigit
  let rest := cs.dropWhile Char.isDigit
  let (fraction, rest) := match rest with
    | '.' :: rest => (rest.takeWhile Char.isDigit, rest.dropWhile Char.isDigit)
    | rest => ([], rest)
  let exponent ← decimalExponent? rest
  if whole.isEmpty && fraction.isEmpty then none
  else some (ofDecimal negative (figures (whole ++ fraction)) (exponent - fraction.length))

/-- Reads a number: a decimal, or a name of infinity or of the undefined
number in any letter case, with an optional sign. -/
def ofText? (text : String) : Option Binary64 :=
  let (negative, cs) := signed text.toList
  match String.ofList (cs.map Char.toLower) with
  | "inf" | "infinity" => some (infinite negative)
  | "nan" => some nan
  | _ => decimal? negative cs

end Binary64

end ChainExtract
