import ChainExtract.Json.Value

/-!
# Numbers of JSON texts

A number without point and exponent is whole if 64 bits hold it. Every other
number is binary: the digits that fit 64 bits are taken, and the result is
scaled by a power of ten with a rounding of its own.
-/

namespace ChainExtract

/-- Why a text is not JSON: it ends too early, or it goes wrong. -/
inductive JsonFault where
  | unfinished
  | malformed
deriving DecidableEq, Repr

namespace Binary64

/-- A finite number times the positive ratio `num / den`, rounded. -/
def timesRatio (num den : Nat) : Binary64 → Binary64
  | finite negative mantissa exponent =>
    if mantissa = 0 then zero negative
    else ofPositiveRatio negative (mantissa <<< exponent.toNat * num) (1 <<< (-exponent).toNat * den)
  | x => x

/-- The number nearest to `10 ^ n`, as a ratio; `n` is at most 308. -/
def powerOfTen (n : Nat) : Nat × Nat :=
  match ofDecimal false 1 n with
  | finite _ mantissa exponent => (mantissa <<< exponent.toNat, 1 <<< (-exponent).toNat)
  | _ => (1, 1)

/-- A number times `10 ^ exponent`, by one rounded multiplication or division
after `steps` divisions by `10 ^ 308` at most; none if the result would be
infinite. A number of 64 bits that is divided twice in this way is zero. -/
def scale (x : Binary64) : (steps : Nat) → (exponent : Int) → Option Binary64
  | steps, exponent =>
    let (num, den) := powerOfTen (min exponent.natAbs 308)
    if exponent.natAbs ≤ 308 then
      let y := if 0 ≤ exponent then x.timesRatio num den else x.timesRatio den num
      if y.isFinite then some y else none
    else if x = zero false then some x
    else match steps with
      | 0 => none
      | steps + 1 => if 0 ≤ exponent then none else (x.timesRatio den num).scale steps (exponent + 308)

/-- A finite number with another sign. -/
def withSign (negative : Bool) : Binary64 → Binary64
  | finite _ mantissa exponent => finite negative mantissa exponent
  | x => x

end Binary64

namespace JsonNumber

/-- The number that `digits` continue from `start` as far as 64 bits hold it,
and how many of the digits are left over. -/
def leading (start : Nat) : (digits : List Char) → Nat × Nat
  | [] => (start, 0)
  | c :: cs =>
    let next := 10 * start + (c.toNat - '0'.toNat)
    if next < Nat.pow 2 64 then leading next cs else (start, cs.length + 1)

/-- The binary number of a decimal with a whole part, a fraction and an
exponent. -/
def float? (negative : Bool) (whole fraction : List Char) (exponent : Int) : Option Binary64 :=
  -- skipped digits scale the number up, and digits of the fraction scale it down
  let (digits, skipped) := leading 0 whole
  let (digits, dropped) := leading digits fraction
  let exponent := exponent + skipped - (fraction.length - dropped : Nat)
  ((Binary64.ofInt digits).scale 3 exponent).map (Binary64.withSign negative)

/-- The value of a number without point and exponent. -/
def whole? (negative : Bool) (digits : List Char) : Option JsonScalar :=
  let n : Int := Binary64.figures digits
  if negative then
    if n ≠ 0 ∧ n ≤ Nat.pow 2 63 then some (.integer (-n)) else (float? true digits [] 0).map .float
  else
    if n < Nat.pow 2 64 then some (.integer n) else (float? false digits [] 0).map .float

/-- Reads digits, of which there must be one at least. -/
def digits (cs : List Char) : Except JsonFault (List Char × List Char) :=
  match cs.takeWhile Char.isDigit, cs.dropWhile Char.isDigit with
  | [], [] => .error .unfinished
  | [], _ => .error .malformed
  | digits, rest => .ok (digits, rest)

/-- Reads the digits of the whole part, which do not begin with a zero unless
it is their only one. -/
def wholePart (cs : List Char) : Except JsonFault (List Char × List Char) := do
  let (whole, rest) ← digits cs
  match whole with
  | '0' :: _ :: _ => throw .malformed
  | _ => return (whole, rest)

/-- Reads the fraction, if there is one. -/
def fractionPart : List Char → Except JsonFault (Option (List Char) × List Char)
  | '.' :: cs => do
    let (fraction, rest) ← digits cs
    return (some fraction, rest)
  | cs => return (none, cs)

/-- Reads the exponent, if there is one. -/
def exponentPart : List Char → Except JsonFault (Option Int × List Char)
  | [] => return (none, [])
  | c :: cs =>
    if c = 'e' ∨ c = 'E' then do
      let (negative, cs) := Binary64.signed cs
      let (exponent, rest) ← digits cs
      let n : Int := Binary64.figures exponent
      return (some (if negative then -n else n), rest)
    else return (none, c :: cs)

/-- Reads a number without its sign. -/
def unsigned (negative : Bool) (cs : List Char) : Except JsonFault (JsonScalar × List Char) := do
  let (whole, rest) ← wholePart cs
  let (fraction?, rest) ← fractionPart rest
  let (exponent?, rest) ← exponentPart rest
  let number? := match fraction?, exponent? with
    | none, none => whole? negative whole
    | _, _ => (float? negative whole (fraction?.getD []) (exponent?.getD 0)).map .float
  match number? with
  | some number => return (number, rest)
  | none => throw .malformed

end JsonNumber

end ChainExtract
