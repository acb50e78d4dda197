import ScriptLens.Number.Binary64

/-!
# The shortest decimal text of a number

A number is written with the fewest digits that still read back as the same number.  Of several such
decimals the nearest one is taken, and of two equally near ones the one with the even last digit.
-/

namespace ScriptLens.Binary64

/-- A positive decimal `coefficient * 10 ^ power`. -/
structure Decimal where
  coefficient : Nat
  power : Int
deriving DecidableEq, Repr

/-- The exact position of a number among its neighbours, over one denominator.  Every real between
`low` and `high` rounds to the number, and the two ends do when `closed` holds. -/
structure Neighbourhood where
  low : Nat
  value : Nat
  high : Nat
  den : Nat
  closed : Bool
deriving DecidableEq, Repr

/-- The neighbourhood of `significand * 2 ^ exponent`.  Below a power of two the next number is only
half as far as above it. -/
def neighbourhood (significand : Nat) (exponent : Int) : Neighbourhood :=
  let below := if significand = Nat.pow 2 (precision - 1) ∧ minExponent < exponent then 1 else 2
  let factor := (exponent - 2).toNat
  { low := (4 * significand - below) * Nat.pow 2 factor
    value := 4 * significand * Nat.pow 2 factor
    high := (4 * significand + 2) * Nat.pow 2 factor
    den := Nat.pow 2 (2 - exponent).toNat
    closed := significand % 2 = 0 }

/-- The number of decimal digits of a natural number. -/
def digitCount (n : Nat) : Nat :=
  (Nat.toDigits 10 n).length

/-- The fraction `num / den` over `10 ^ power`, as a numerator and a denominator. -/
def overPower (num den : Nat) (power : Int) : Nat × Nat :=
  (num * Nat.pow 10 (-power).toNat, den * Nat.pow 10 power.toNat)

/-- The power of ten of the first digit of `num / den`. -/
def leadingPower (num den : Nat) : Int :=
  let guess : Int := (digitCount num : Int) - (digitCount den : Int)
  let sides := overPower num den guess
  if sides.2 ≤ sides.1 then guess else guess - 1

/-- Whether the decimal `coefficient * 10 ^ power` rounds to the number. -/
def Neighbourhood.contains (n : Neighbourhood) (coefficient : Nat) (power : Int) : Bool :=
  let point := coefficient * n.den * Nat.pow 10 power.toNat
  let low := n.low * Nat.pow 10 (-power).toNat
  let high := n.high * Nat.pow 10 (-power).toNat
  if n.closed then decide (low ≤ point) && decide (point ≤ high)
  else decide (low < point) && decide (point < high)

/-- The best decimal with the given power that rounds to the number: one of the two multiples of
`10 ^ power` around the value. -/
def Neighbourhood.onGrid? (n : Neighbourhood) (power : Int) : Option Nat :=
  let sides := overPower n.value n.den power
  let floor := sides.1 / sides.2
  let rest := 2 * (sides.1 % sides.2)
  match n.contains floor power, n.contains (floor + 1) power with
  | true, true =>
      if rest < sides.2 then some floor
      else if sides.2 < rest then some (floor + 1)
      else some (floor + floor % 2)
  | true, false => some floor
  | false, true => some (floor + 1)
  | false, false => none

/-- Try ever finer grids, starting at `power`, until one has a decimal that reads back. -/
def Neighbourhood.search (n : Neighbourhood) : Nat → Int → Decimal
  | 0, power => ⟨n.value / n.den, power⟩
  | tries + 1, power =>
      match n.onGrid? power with
      | some coefficient => ⟨coefficient, power⟩
      | none => n.search tries (power - 1)

/-- The greatest number of digits that any number needs. -/
def maxDigits : Nat := 17

/-- The shortest decimal that reads back as `significand * 2 ^ exponent`. -/
def shortest (significand : Nat) (exponent : Int) : Decimal :=
  let n := neighbourhood significand exponent
  n.search maxDigits (leadingPower n.value n.den)

/-! ### Layout

A number whose first digit has a power of ten from -4 to 15 is written positionally, with at least
one digit after the point.  Any other number has an exponent of at least two digits, with its sign.
-/

/-- Positional notation of `digits`, the first of which has the given power of ten. -/
def positional (digits : List Char) (power : Int) : List Char :=
  if power < 0 then
    '0' :: '.' :: List.replicate (-power - 1).toNat '0' ++ digits
  else
    let whole := power.toNat + 1
    let fraction := digits.drop whole
    digits.take whole ++ List.replicate (whole - digits.length) '0'
      ++ '.' :: (if fraction.isEmpty then ['0'] else fraction)

/-- Exponent notation of `digits`, the first of which has the given power of ten. -/
def scientific (digits : List Char) (power : Int) : List Char :=
  let exponent := Nat.toDigits 10 power.natAbs
  let fraction := digits.drop 1
  digits.take 1 ++ (if fraction.isEmpty then [] else '.' :: fraction)
    ++ 'e' :: (if power < 0 then '-' else '+')
    :: (List.replicate (2 - exponent.length) '0' ++ exponent)

/-- The text of a decimal. -/
def Decimal.render (d : Decimal) : List Char :=
  let all := Nat.toDigits 10 d.coefficient
  let power := d.power + (all.length - 1 : Nat)
  let digits := (all.reverse.dropWhile (· = '0')).reverse
  if -4 ≤ power ∧ power < 16 then positional digits power else scientific digits power

/-- The text of a number. -/
def render : Binary64 → String
  | .infinite => "inf"
  | .finite significand exponent =>
      if significand = 0 then "0.0"
      else String.ofList (shortest significand exponent).render

end ScriptLens.Binary64
