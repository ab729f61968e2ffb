import TypedJson.Number.Decimal

/-!
# Numbers

A number is an integer of at most 64 bits, signed or unsigned, or a finite
binary64 number. How a number is held is part of it: `1` and `1.0` are two
numbers. `Number.sameNumber` compares what they stand for: two integers exactly,
and otherwise both as binary64 numbers.
-/

set_option autoImplicit false

namespace TypedJson

/-- The integers of at most 64 bits, signed or unsigned. -/
def Number.InRange (n : Int) : Prop :=
  -9223372036854775808 ≤ n ∧ n ≤ 18446744073709551615

instance (n : Int) : Decidable (Number.InRange n) :=
  inferInstanceAs (Decidable (_ ∧ _))

/-- An integer of at most 64 bits, or a finite binary64 number. -/
inductive Number where
  | int (n : Int) (fits : Number.InRange n)
  | float (x : Binary64)
  deriving DecidableEq

namespace Number

theorem inRange_toNat (n : UInt64) : InRange n.toNat := by
  have bound := n.toNat_lt
  unfold InRange
  omega

/-- An unsigned 64-bit integer. -/
def ofUInt64 (n : UInt64) : Number :=
  .int n.toNat (inRange_toNat n)

/-- A count: an integer, as long as it fits. -/
def ofNat (n : Nat) : Number :=
  if h : InRange n then .int n h else .float (Binary64.ofInt n)

/-- The nearest binary64 number. -/
def toBinary64 : Number → Binary64
  | .int n _ => Binary64.ofInt n
  | .float x => x

/-- Two numbers stand for the same: integers exactly, and otherwise as binary64
numbers, where the two zeros are one. -/
def sameNumber : Number → Number → Bool
  | .int a _, .int b _ => a == b
  | a, b => a.toBinary64.sameNumber b.toBinary64

/-- The text of an integer. -/
def intText (n : Int) : List Char :=
  if n < 0 then '-' :: Nat.toDigits 10 n.natAbs else Nat.toDigits 10 n.natAbs

/-- The text of a number. -/
def text : Number → List Char
  | .int n _ => intText n
  | .float x => x.text

/-- The number that a sign and a run of digits stand for: an integer when it fits,
and otherwise the nearest binary64 number. Minus zero has no integer. -/
def ofDigits? (negative : Bool) (n : Nat) : Option Number :=
  let signed : Int := if negative then -(n : Int) else n
  if h : InRange signed then
    if negative && n == 0 then some (.float (.zero true)) else some (.int signed h)
  else (Decimal.toBinary64? negative ⟨n, 0⟩).map .float

end Number

end TypedJson
