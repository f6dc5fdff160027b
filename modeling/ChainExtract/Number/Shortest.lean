import ChainExtract.Number.Binary64
import ChainExtract.Text.Numeral

/-!
# Shortest decimals

The decimal with the fewest digits among those that read back as a given
binary number, and of these the nearest to it. Where two are equally near, the
rule of the format decides.
-/

namespace ChainExtract.Shortest

/-- Which of two equally near decimals is taken: the greater one, or the one
whose last digit is even. -/
inductive Tie where
  | up
  | even
deriving DecidableEq, Repr

/-- A positive decimal: `digits * 10 ^ exponent`. -/
structure Decimal where
  digits : Nat
  exponent : Int
deriving DecidableEq, Repr

/-- What reads back as `mantissa * 2 ^ exponent`, in quarters of the last
binary place: the number itself, the two ends of the interval, and whether
the ends belong to it. -/
structure Interval where
  low : Nat
  value : Nat
  high : Nat
  closed : Bool
  /-- The exponent of the unit. -/
  unit : Int

/-- The interval of a number. Below a power of two the numbers lie twice as
dense. -/
def Interval.of (mantissa : Nat) (exponent : Int) : Interval where
  low := if mantissa = Nat.pow 2 52 ∧ Binary64.minExponent < exponent then 4 * mantissa - 1 else 4 * mantissa - 2
  value := 4 * mantissa
  high := 4 * mantissa + 2
  closed := mantissa % 2 = 0
  unit := exponent - 2

/-- The factors `num` and `den` by which a count of units becomes a count of
`10 ^ place`. -/
def factors (unit place : Int) : Nat × Nat :=
  (Nat.pow 2 unit.toNat * Nat.pow 10 (-place).toNat, Nat.pow 2 (-unit).toNat * Nat.pow 10 place.toNat)

/-- The multiple of `10 ^ place` nearest to the number, if one lies in the
interval. -/
def onGrid? (tie : Tie) (interval : Interval) (place : Int) : Option Nat :=
  let (num, den) := factors interval.unit place
  let below := interval.value * num / den
  let above := below + 1
  let inside (n : Nat) : Bool :=
    if interval.closed then interval.low * num ≤ n * den && n * den ≤ interval.high * num
    else interval.low * num < n * den && n * den < interval.high * num
  let gapBelow := interval.value * num - below * den
  let gapAbove := above * den - interval.value * num
  match 0 < below && inside below, inside above with
  | true, true =>
    if gapBelow < gapAbove then some below
    else if gapBelow = gapAbove ∧ tie = .even ∧ below % 2 = 0 then some below
    else some above
  | true, false => some below
  | false, true => some above
  | false, false => none

/-- The first hit on the grids from `place` downward, `count` of them. -/
def search (tie : Tie) (interval : Interval) : (count : Nat) → (place : Int) → Decimal
  | 0, place =>
    let (num, den) := factors interval.unit place
    ⟨Binary64.divNearest (interval.value * num) den, place⟩
  | count + 1, place =>
    match onGrid? tie interval place with
    -- the multiple above nine of the first place has a digit more
    | some digits => if digits = 10 then ⟨1, place + 1⟩ else ⟨digits, place⟩
    | none => search tie interval count (place - 1)

/-- The place of the first digit of `mantissa * 2 ^ exponent`. -/
def firstPlace (mantissa : Nat) (exponent : Int) : Int :=
  let num := mantissa <<< exponent.toNat
  let den := 1 <<< (-exponent).toNat
  if den ≤ num then (Binary64.digitCount (num / den) : Int) - 1
  else -(Binary64.digitCount ((den + num - 1) / num - 1) : Int)

/-- The shortest decimal of the positive number `mantissa * 2 ^ exponent`.
Seventeen digits always suffice. -/
def decimal (tie : Tie) (mantissa : Nat) (exponent : Int) : Decimal :=
  search tie (Interval.of mantissa exponent) 17 (firstPlace mantissa exponent)

/-- The decimal written out without an exponent. -/
def Decimal.positional (decimal : Decimal) : List Char :=
  let digits := Numeral.digits 10 decimal.digits
  if 0 ≤ decimal.exponent then digits ++ List.replicate decimal.exponent.toNat '0'
  else
    let places := (-decimal.exponent).toNat
    if places < digits.length then
      digits.take (digits.length - places) ++ '.' :: digits.drop (digits.length - places)
    else '0' :: '.' :: (List.replicate (places - digits.length) '0' ++ digits)

end ChainExtract.Shortest

namespace ChainExtract.Binary64

/-- The shortest text of a number that reads back, without an exponent. -/
def text : Binary64 → String
  | nan => "NaN"
  | infinite negative => if negative then "-inf" else "inf"
  | finite negative mantissa exponent =>
    let body := if mantissa = 0 then ['0'] else (Shortest.decimal .up mantissa exponent).positional
    String.ofList (if negative then '-' :: body else body)

end ChainExtract.Binary64
