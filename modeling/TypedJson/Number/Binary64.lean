/-!
# Finite binary64 numbers

A finite binary64 number is `± mantissa * 2 ^ exponent` in the one form that the
format has for it: a mantissa below `2 ^ 53` that uses its top bit, or the lowest
exponent. `Binary64.ofRatio` rounds an exact ratio to the nearest such number, a
tie going to the even mantissa; a ratio that rounds past the largest one has none.
All arithmetic is exact, on natural numbers.
-/

set_option autoImplicit false

namespace TypedJson

/-- The pairs of mantissa and exponent that the format uses. -/
def Binary64.Canonical (mantissa : Nat) (exponent : Int) : Prop :=
  mantissa < Nat.pow 2 53 ∧ -1074 ≤ exponent ∧ exponent ≤ 971 ∧
    (Nat.pow 2 52 ≤ mantissa ∨ exponent = -1074)

instance (mantissa : Nat) (exponent : Int) : Decidable (Binary64.Canonical mantissa exponent) :=
  inferInstanceAs (Decidable (_ ∧ _ ∧ _ ∧ _))

/-- A finite binary64 number; zero has a sign. -/
structure Binary64 where
  negative : Bool
  mantissa : Nat
  exponent : Int
  canonical : Binary64.Canonical mantissa exponent
  deriving DecidableEq

namespace Binary64

/-- Zero, with a sign. -/
def zero (negative : Bool) : Binary64 where
  negative := negative
  mantissa := 0
  exponent := -1074
  canonical := by decide

/-- The number with the given parts, where the format has one. -/
def make? (negative : Bool) (mantissa : Nat) (exponent : Int) : Option Binary64 :=
  if h : Canonical mantissa exponent then some ⟨negative, mantissa, exponent, h⟩ else none

/-- Zero of either sign. -/
def isZero (x : Binary64) : Bool :=
  x.mantissa == 0

/-- The same number on the number line: the two zeros are one. -/
def sameNumber (x y : Binary64) : Bool :=
  (x.isZero && y.isZero) || x == y

/-- `num / den * 2 ^ (-exponent)` as a ratio of natural numbers. -/
def scaled (num den : Nat) (exponent : Int) : Nat × Nat :=
  if 0 ≤ exponent then (num, den * Nat.pow 2 exponent.toNat)
  else (num * Nat.pow 2 (-exponent).toNat, den)

/-- The nearest whole number to a ratio, a tie going to the even one. -/
def nearest (num den : Nat) : Nat :=
  let q := num / den
  let twice := 2 * (num % den)
  if twice < den then q
  else if den < twice then q + 1
  else if q % 2 = 0 then q else q + 1

/-- The least exponent, not below the lowest one, at which the ratio is less than
`2 ^ 53` units. -/
def exponentFor (num den : Nat) : Int :=
  let guess : Int := (num.log2 : Int) - (den.log2 : Int) - 53
  let (n, d) := scaled num den guess
  max (-1074) (if n < Nat.pow 2 53 * d then guess else guess + 1)

/-- The nearest number to the ratio `num / den`, given in lowest terms. -/
def ofReduced? (negative : Bool) (num den : Nat) : Option Binary64 :=
  let exponent := exponentFor num den
  let (n, d) := scaled num den exponent
  let mantissa := nearest n d
  if mantissa = Nat.pow 2 53 then make? negative (Nat.pow 2 52) (exponent + 1)
  else make? negative mantissa exponent

/-- The nearest number to the ratio `num / den`; none when it rounds past the
largest number. -/
def ofRatio? (negative : Bool) (num den : Nat) : Option Binary64 :=
  if num = 0 then some (zero negative)
  else ofReduced? negative (num / num.gcd den) (den / num.gcd den)

/-- The nearest number to an integer of at most 64 bits. -/
def ofInt (n : Int) : Binary64 :=
  (ofRatio? (decide (n < 0)) n.natAbs 1).getD (zero false)

/-- The magnitude as an exact ratio. -/
def ratio (x : Binary64) : Nat × Nat :=
  if 0 ≤ x.exponent then (x.mantissa * Nat.pow 2 x.exponent.toNat, 1)
  else (x.mantissa, Nat.pow 2 (-x.exponent).toNat)

end Binary64

end TypedJson
