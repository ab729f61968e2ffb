import TypedJson.Number
import TypedJson.Proofs.Number.Rounding

/-!
# Comparison of numbers

Two integers are compared exactly, and all other pairs as binary64 numbers. The comparison is
symmetric, but two integers that are rounded to the same binary64 number are each the same as
that number and not the same as each other. Such integers are the one obstacle on the way from
`a` over `b` to `c` (`Number.sameNumber_trans_or`).

Integers below `2 ^ 53` in magnitude are binary64 numbers themselves (`Binary64.value_ofInt`), so
rounding keeps them apart (`Binary64.eq_of_sameNumber_ofInt`).
-/

set_option autoImplicit false

namespace TypedJson

namespace Binary64

variable {x y z : Binary64}

theorem sameNumber_iff :
    x.sameNumber y = true ↔ (x.isZero = true ∧ y.isZero = true) ∨ x = y := by
  simp [sameNumber]

theorem sameNumber_symm (h : x.sameNumber y = true) : y.sameNumber x = true := by
  rw [sameNumber_iff] at h ⊢
  exact h.imp And.symm Eq.symm

theorem sameNumber_trans (hxy : x.sameNumber y = true) (hyz : y.sameNumber z = true) :
    x.sameNumber z = true := by
  rw [sameNumber_iff] at hxy hyz ⊢
  rcases hxy with ⟨hx, hy⟩ | rfl
  · rcases hyz with ⟨-, hz⟩ | rfl
    · exact Or.inl ⟨hx, hz⟩
    · exact Or.inl ⟨hx, hy⟩
  · exact hyz

/-! ## Integers that the format has -/

/-- The number that a binary64 number stands for. -/
def value (x : Binary64) : ℚ :=
  if x.negative then -x.magnitude else x.magnitude

theorem value_of_isZero (h : x.isZero = true) : x.value = 0 := by
  have hmantissa : x.mantissa = 0 := by simpa [isZero] using h
  simp [value, magnitude, hmantissa]

theorem value_eq_of_sameNumber (h : x.sameNumber y = true) : x.value = y.value := by
  rcases sameNumber_iff.1 h with ⟨hx, hy⟩ | rfl
  · rw [value_of_isZero hx, value_of_isZero hy]
  · rfl

/-- A whole number below `2 ^ 53` becomes a full mantissa when it is shifted to the left. -/
theorem exists_magnitude_eq {n : Nat} (hn : n ≠ 0) (hbound : n < 2 ^ 53) (negative : Bool) :
    ∃ x : Binary64, x.negative = negative ∧ x.magnitude = n := by
  have hlow : 2 ^ n.log2 ≤ n := Nat.log2_self_le hn
  have hhigh : n < 2 ^ (n.log2 + 1) := Nat.lt_log2_self
  have hlog : n.log2 ≤ 52 := Nat.lt_succ_iff.1 ((Nat.log2_lt hn).2 hbound)
  have hcanonical : Canonical (n * 2 ^ (52 - n.log2)) ((n.log2 : Int) - 52) := by
    refine canonical_iff.2 ⟨?_, by omega, by omega, Or.inl ?_⟩
    · calc n * 2 ^ (52 - n.log2)
          < 2 ^ (n.log2 + 1) * 2 ^ (52 - n.log2) := by gcongr
        _ = 2 ^ 53 := by
          rw [← pow_add]
          congr 1
          omega
    · calc 2 ^ 52 = 2 ^ n.log2 * 2 ^ (52 - n.log2) := by
            rw [← pow_add]
            congr 1
            omega
        _ ≤ n * 2 ^ (52 - n.log2) := by gcongr
  refine ⟨⟨negative, _, _, hcanonical⟩, rfl, ?_⟩
  have hshift : ((52 - n.log2 : Nat) : Int) + ((n.log2 : Int) - 52) = 0 := by omega
  rw [magnitude]
  push_cast
  rw [mul_assoc, ← zpow_natCast, ← zpow_add₀ (by norm_num), hshift, zpow_zero, mul_one]

/-- An integer below `2 ^ 53` in magnitude is a binary64 number. -/
theorem value_ofInt {n : Int} (h : n.natAbs < 2 ^ 53) : (ofInt n).value = n := by
  by_cases hzero : n = 0
  · subst hzero
    exact value_of_isZero (by decide)
  · have hnatAbs : n.natAbs ≠ 0 := Int.natAbs_ne_zero.2 hzero
    obtain ⟨x, hsign, hmagnitude⟩ := exists_magnitude_eq hnatAbs h (decide (n < 0))
    have hround : ofRatio? (decide (n < 0)) n.natAbs 1 = some x := by
      rw [← hsign]
      apply ofRatio?_magnitude x hnatAbs one_ne_zero
      rw [hmagnitude, Nat.cast_one, div_one]
    have hcast : ((n.natAbs : Int) : ℚ) = n.natAbs := Int.cast_natCast _
    rw [ofInt, hround, Option.getD_some, value, hsign, hmagnitude, ← hcast]
    by_cases hneg : n < 0
    · rw [if_pos (decide_eq_true hneg), ← Int.cast_neg]
      congr 1
      omega
    · rw [if_neg (by simpa using hneg)]
      congr 1
      omega

/-- Rounding keeps integers below `2 ^ 53` in magnitude apart. -/
theorem eq_of_sameNumber_ofInt {n m : Int} (hn : n.natAbs < 2 ^ 53) (hm : m.natAbs < 2 ^ 53)
    (h : (ofInt n).sameNumber (ofInt m) = true) : n = m := by
  have hvalue := value_eq_of_sameNumber h
  rw [value_ofInt hn, value_ofInt hm] at hvalue
  exact_mod_cast hvalue

end Binary64

namespace Number

variable {a b c : Number}

theorem sameNumber_refl (a : Number) : a.sameNumber a = true := by
  cases a with
  | int n hn => simp [sameNumber]
  | float x => exact Binary64.sameNumber_iff.2 (Or.inr rfl)

theorem sameNumber_symm (h : a.sameNumber b = true) : b.sameNumber a = true := by
  cases a with
  | int n hn =>
      cases b with
      | int m hm =>
          simp only [sameNumber, beq_iff_eq] at h ⊢
          exact h.symm
      | float y => exact Binary64.sameNumber_symm h
  | float x => cases b <;> exact Binary64.sameNumber_symm h

/-- What is the same is the same once it is rounded. -/
theorem sameNumber_toBinary64 (h : a.sameNumber b = true) :
    a.toBinary64.sameNumber b.toBinary64 = true := by
  cases a with
  | int n hn =>
      cases b with
      | int m hm =>
          have heq : n = m := by simpa [sameNumber] using h
          subst heq
          exact Binary64.sameNumber_iff.2 (Or.inr rfl)
      | float y => exact h
  | float x => cases b <;> exact h

/-- Two different integers that are the same once they are rounded. -/
def Clashes : Number → Number → Prop
  | .int n _, .int m _ => n ≠ m ∧ (Binary64.ofInt n).sameNumber (Binary64.ofInt m) = true
  | _, _ => False

theorem not_clashes_of_sameNumber (h : a.sameNumber b = true) : ¬ Clashes a b := by
  intro hclash
  cases a with
  | int n hn =>
      cases b with
      | int m hm => exact hclash.1 (by simpa [sameNumber] using h)
      | float y => exact hclash
  | float x => exact hclash

/-- The comparison is transitive, up to integers that clash. -/
theorem sameNumber_trans_or (hab : a.sameNumber b = true) (hbc : b.sameNumber c = true) :
    a.sameNumber c = true ∨ Clashes a c := by
  have hrounded : a.toBinary64.sameNumber c.toBinary64 = true :=
    Binary64.sameNumber_trans (sameNumber_toBinary64 hab) (sameNumber_toBinary64 hbc)
  -- Only two integers are not compared by what they are rounded to.
  cases a with
  | int n hn =>
      cases c with
      | int m hm =>
          by_cases heq : n = m
          · exact Or.inl (by simpa [sameNumber] using heq)
          · exact Or.inr ⟨heq, hrounded⟩
      | float z => exact Or.inl hrounded
  | float x => cases c <;> exact Or.inl hrounded

end Number

end TypedJson
