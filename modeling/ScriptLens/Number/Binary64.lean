/-!
# Binary64 values of decimal numerals

A numeral denotes the binary64 number nearest to its decimal value.  The number is kept exactly, as a
significand and a power of two, and is found by integer arithmetic alone.
-/

namespace ScriptLens

/-- A binary64 number that is not negative: `significand * 2 ^ exponent`, or infinity. -/
inductive Binary64 where
  | finite (significand : Nat) (exponent : Int)
  | infinite
deriving DecidableEq, Repr, Inhabited

namespace Binary64

/-- The least exponent of a binary64 number. -/
def minExponent : Int := -1074

/-- The greatest exponent of a binary64 number. -/
def maxExponent : Int := 971

/-- The number of bits in a significand. -/
def precision : Nat := 53

/-- Zero. -/
def zero : Binary64 := .finite 0 minExponent

/-- The fraction `num / (den * 2 ^ e)`, as a numerator and a denominator. -/
def scale (num den : Nat) : Int → Nat × Nat
  | .ofNat k => (num, den * Nat.pow 2 k)
  | .negSucc k => (num * Nat.pow 2 (k + 1), den)

/-- The integer nearest to `num / den`; of two equally near ones, the even one. -/
def nearest (num den : Nat) : Nat :=
  let floor := num / den
  let rest := 2 * (num % den)
  if rest < den then floor
  else if den < rest then floor + 1
  else floor + floor % 2

/-- The exponent that gives `num / den` a significand of full precision, but not less than the
least exponent. -/
def exponentOf (num den : Nat) : Int :=
  let guess := (num.log2 : Int) - (den.log2 : Int) - (precision - 1 : Nat)
  let fraction := scale num den guess
  let exact := if fraction.1 / fraction.2 < Nat.pow 2 (precision - 1) then guess - 1 else guess
  max exact minExponent

/-- A significand and an exponent as a number: a significand that rounding carried to the next power
of two is halved, and an exponent above the greatest one means infinity. -/
def pack (significand : Nat) (exponent : Int) : Binary64 :=
  let carried := significand == Nat.pow 2 precision
  let s := if carried then Nat.pow 2 (precision - 1) else significand
  let e := if carried then exponent + 1 else exponent
  if maxExponent < e then .infinite else .finite s e

/-- The number nearest to `digits / 10 ^ places`; of two equally near ones, the one with the even
significand. -/
def ofDecimal (digits places : Nat) : Binary64 :=
  if digits = 0 then zero
  else
    let den := Nat.pow 10 places
    let exponent := exponentOf digits den
    let fraction := scale digits den exponent
    pack (nearest fraction.1 fraction.2) exponent

end Binary64

end ScriptLens
