import TypedJson.Number.Binary64

/-!
# Decimal notation of binary64 numbers

A decimal is a whole number times a power of ten. `Decimal.toBinary64?` reads it
as the nearest binary64 number, and `Decimal.shortest` chooses the decimal that a
number is written with: the fewest digits that read back as that number, and of
those the nearest to it.
-/

set_option autoImplicit false

namespace TypedJson

/-- The number `digits * 10 ^ exponent`. -/
structure Decimal where
  digits : Nat
  exponent : Int
  deriving DecidableEq, Repr

namespace Decimal

/-- The exact ratio of a decimal. -/
def ratio (d : Decimal) : Nat × Nat :=
  if 0 ≤ d.exponent then (d.digits * Nat.pow 10 d.exponent.toNat, 1)
  else (d.digits, Nat.pow 10 (-d.exponent).toNat)

/-- At least `2 ^ 1024`, as `8 ^ exponent ≤ 10 ^ exponent` shows without computing
the power. -/
def tooLarge (d : Decimal) : Bool :=
  0 ≤ d.exponent && 1024 ≤ (d.digits.log2 : Int) + 3 * d.exponent

/-- Below half of the least positive number, by the same comparison of powers. -/
def tooSmall (d : Decimal) : Bool :=
  d.exponent < 0 && (d.digits.log2 : Int) + 1 + 3 * d.exponent ≤ -1075

/-- The nearest binary64 number with the given sign; none when the decimal rounds
past the largest one. -/
def toBinary64? (negative : Bool) (d : Decimal) : Option Binary64 :=
  if d.digits = 0 then some (.zero negative)
  else if d.tooLarge then none
  else if d.tooSmall then some (.zero negative)
  else Binary64.ofRatio? negative d.ratio.1 d.ratio.2

/-- `10 ^ k` is at most the ratio. -/
def powerAtMost (num den : Nat) (k : Int) : Bool :=
  if 0 ≤ k then Nat.pow 10 k.toNat * den ≤ num else den ≤ num * Nat.pow 10 (-k).toNat

/-- The decimal exponent of a positive ratio: the largest `k` with `10 ^ k` at most
the ratio. The quotient of the binary logarithms is at most two off. -/
def magnitude (num den : Nat) : Int :=
  let guess : Int := (((num.log2 : Int) - (den.log2 : Int)) * 30103).fdiv 100000
  ([guess + 2, guess + 1, guess, guess - 1].find? (powerAtMost num den)).getD (guess - 2)

/-- The two neighbours of a ratio on the grid of multiples of `10 ^ place`, the
nearer first; of two equally near ones the even one is first. -/
def neighbours (num den : Nat) (place : Int) : List Decimal :=
  let (n, d) :=
    if 0 ≤ place then (num, den * Nat.pow 10 place.toNat)
    else (num * Nat.pow 10 (-place).toNat, den)
  let below := n / d
  if Binary64.nearest n d = below then [⟨below, place⟩, ⟨below + 1, place⟩]
  else [⟨below + 1, place⟩, ⟨below, place⟩]

/-- The neighbours with one significant digit, then those with two, and so on up
to seventeen digits. -/
def candidates (num den : Nat) : List Decimal :=
  let top := magnitude num den
  (List.range 17).flatMap fun (count : Nat) => neighbours num den (top - count)

/-- The full decimal expansion of a binary64 number. -/
def exact (x : Binary64) : Decimal :=
  if 0 ≤ x.exponent then ⟨x.mantissa * Nat.pow 2 x.exponent.toNat, 0⟩
  else ⟨x.mantissa * Nat.pow 5 (-x.exponent).toNat, x.exponent⟩

/-- The decimal that a number is written with: the first candidate that reads back
as the number. -/
def shortest (x : Binary64) : Decimal :=
  ((candidates x.ratio.1 x.ratio.2).find? fun d =>
    d.toBinary64? x.negative == some x).getD (exact x)

/-- Trailing zeros moved from the digits into the exponent. The number of digits
bounds the number of zeros. -/
def trimmed (d : Decimal) : Decimal :=
  go (d.digits.log2 + 1) d
where
  /-- Moves at most so many zeros. -/
  go : Nat → Decimal → Decimal
    | 0, d => d
    | fuel + 1, d =>
        if d.digits ≠ 0 ∧ d.digits % 10 = 0 then go fuel ⟨d.digits / 10, d.exponent + 1⟩ else d

/-- A run of zeros. -/
def zeros (n : Nat) : List Char :=
  List.replicate n '0'

/-- Positional notation, with at least one digit on either side of the point. -/
def positional (ds : List Char) (exponent : Int) : List Char :=
  let point : Int := (ds.length : Int) + exponent
  if 0 ≤ exponent then ds ++ zeros exponent.toNat ++ ['.', '0']
  else if 0 < point then ds.take point.toNat ++ '.' :: ds.drop point.toNat
  else '0' :: '.' :: (zeros (-point).toNat ++ ds)

/-- Scientific notation: one digit before the point, the point only when more
digits follow, and a signed exponent. -/
def scientific (ds : List Char) (power : Int) : List Char :=
  let fraction := if ds.length ≤ 1 then [] else '.' :: ds.drop 1
  let sign := if power < 0 then '-' else '+'
  ds.take 1 ++ fraction ++ 'e' :: sign :: Nat.toDigits 10 power.natAbs

/-- A decimal in positional notation when its leading digit has a place value from
`10 ^ (-5)` to `10 ^ 15`, in scientific notation otherwise. -/
def layout (d : Decimal) : List Char :=
  let t := d.trimmed
  let ds := Nat.toDigits 10 t.digits
  let power : Int := (ds.length : Int) + t.exponent - 1
  if -5 ≤ power && power ≤ 15 then positional ds t.exponent else scientific ds power

end Decimal

/-- The text of a binary64 number. -/
def Binary64.text (x : Binary64) : List Char :=
  let magnitude := if x.isZero then ['0', '.', '0'] else (Decimal.shortest x).layout
  if x.negative then '-' :: magnitude else magnitude

end TypedJson
