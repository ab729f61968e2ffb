import TypedJson.Number.Decimal
import TypedJson.Proofs.Number.Rounding

/-!
# The decimal of a binary64 number reads back

A decimal is read by its value alone: the two tests that spare large powers of ten only
anticipate what rounding would give (`toBinary64?_eq_ofRatio?`), and decimals of one value
are read alike (`toBinary64?_congr`). The decimal that a number is written with reads back
as the number (`toBinary64?_shortest`): the search keeps no other candidate, and the full
expansion, which it falls back on, has exactly the value of the number.
-/

set_option autoImplicit false

namespace TypedJson.Decimal

/-- The number that a decimal stands for. -/
def value (d : Decimal) : ℚ :=
  d.digits * 10 ^ d.exponent

theorem ratio_den_ne_zero (d : Decimal) : d.ratio.2 ≠ 0 := by
  simp only [ratio, Nat.pow_eq]
  split
  · exact one_ne_zero
  · positivity

theorem ratio_eq_value (d : Decimal) : (d.ratio.1 : ℚ) / d.ratio.2 = d.value := by
  simp only [ratio, value, Nat.pow_eq]
  split
  · next he =>
      obtain ⟨k, hk⟩ := Int.eq_ofNat_of_zero_le he
      rw [hk]
      push_cast
      rw [Int.toNat_natCast, zpow_natCast, div_one]
  · next he =>
      obtain ⟨k, hk⟩ := Int.eq_ofNat_of_zero_le (show 0 ≤ -d.exponent by omega)
      have hexp : d.exponent = -(k : Int) := by omega
      rw [hk, hexp]
      push_cast
      rw [Int.toNat_natCast, zpow_neg, zpow_natCast, div_eq_mul_inv]

/-! ## Reading a decimal -/

/-- Powers of ten from powers of two: `8 ^ k ≤ 10 ^ k`. -/
theorem two_zpow_three_mul_le {k : Int} (hk : 0 ≤ k) : (2 : ℚ) ^ (3 * k) ≤ 10 ^ k := by
  obtain ⟨n, rfl⟩ := Int.eq_ofNat_of_zero_le hk
  rw [zpow_mul, zpow_natCast, zpow_natCast]
  gcongr
  norm_num

theorem large_of_tooLarge {d : Decimal} (hdigits : d.digits ≠ 0) (h : d.tooLarge = true) :
    (2 : ℚ) ^ (1024 : Int) ≤ d.value := by
  simp only [tooLarge, Bool.and_eq_true, decide_eq_true_eq] at h
  obtain ⟨hexp, hlog⟩ := h
  have hlow : (2 : ℚ) ^ (d.digits.log2 : Int) ≤ d.digits := by
    rw [zpow_natCast]
    exact_mod_cast Nat.log2_self_le hdigits
  calc (2 : ℚ) ^ (1024 : Int) ≤ 2 ^ ((d.digits.log2 : Int) + 3 * d.exponent) :=
        zpow_le_zpow_right₀ (by norm_num) hlog
    _ = 2 ^ (d.digits.log2 : Int) * 2 ^ (3 * d.exponent) := zpow_add₀ (by norm_num) _ _
    _ ≤ d.digits * 10 ^ d.exponent := by
      gcongr
      exact two_zpow_three_mul_le hexp

theorem small_of_tooSmall {d : Decimal} (h : d.tooSmall = true) :
    d.value < (2 : ℚ) ^ (-1075 : Int) := by
  simp only [tooSmall, Bool.and_eq_true, decide_eq_true_eq] at h
  obtain ⟨hexp, hlog⟩ := h
  have hhigh : (d.digits : ℚ) < 2 ^ ((d.digits.log2 : Int) + 1) := by
    have hnat : (d.digits : ℚ) < (2 ^ (d.digits.log2 + 1) : Nat) := by
      exact_mod_cast Nat.lt_log2_self
    exact_mod_cast hnat
  -- With a negative exponent the comparison of powers turns round.
  have hpower : (10 : ℚ) ^ d.exponent ≤ 2 ^ (3 * d.exponent) := by
    have hflip := two_zpow_three_mul_le (show 0 ≤ -d.exponent by omega)
    rw [mul_neg, zpow_neg, zpow_neg] at hflip
    exact (inv_le_inv₀ (by positivity) (by positivity)).1 hflip
  calc d.value < 2 ^ ((d.digits.log2 : Int) + 1) * 10 ^ d.exponent := by
        unfold value
        gcongr
    _ ≤ 2 ^ ((d.digits.log2 : Int) + 1) * 2 ^ (3 * d.exponent) := by gcongr
    _ = 2 ^ ((d.digits.log2 : Int) + 1 + 3 * d.exponent) := (zpow_add₀ (by norm_num) _ _).symm
    _ ≤ 2 ^ (-1075 : Int) := zpow_le_zpow_right₀ (by norm_num) hlog

/-- The tests for size only spare work. -/
theorem toBinary64?_eq_ofRatio? (negative : Bool) (d : Decimal) :
    d.toBinary64? negative = Binary64.ofRatio? negative d.ratio.1 d.ratio.2 := by
  unfold toBinary64?
  split
  · next hzero =>
      have hnum : d.ratio.1 = 0 := by
        unfold ratio
        split <;> simp [hzero]
      simp [Binary64.ofRatio?, hnum]
  · next hdigits =>
      split
      · next hlarge =>
          refine (Binary64.ofRatio?_of_large negative d.ratio_den_ne_zero ?_).symm
          rw [ratio_eq_value]
          exact large_of_tooLarge hdigits hlarge
      · split
        · next hsmall =>
            refine (Binary64.ofRatio?_of_small negative d.ratio_den_ne_zero ?_).symm
            rw [ratio_eq_value]
            exact small_of_tooSmall hsmall
        · rfl

/-- Decimals of one value are read alike. -/
theorem toBinary64?_congr (negative : Bool) {d d' : Decimal} (h : d.value = d'.value) :
    d.toBinary64? negative = d'.toBinary64? negative := by
  rw [toBinary64?_eq_ofRatio?, toBinary64?_eq_ofRatio?]
  apply Binary64.ofRatio?_congr negative d.ratio_den_ne_zero d'.ratio_den_ne_zero
  rw [ratio_eq_value, ratio_eq_value, h]

/-- What reads as a number other than zero lies in the range of the format. -/
theorem value_bounds {d : Decimal} {x : Binary64} (h : d.toBinary64? x.negative = some x)
    (hx : x.isZero = false) : (2 : ℚ) ^ (-1075 : Int) ≤ d.value ∧ d.value < 2 ^ (1024 : Int) := by
  rw [toBinary64?_eq_ofRatio?] at h
  constructor
  · by_contra hsmall
    rw [not_le, ← ratio_eq_value] at hsmall
    rw [Binary64.ofRatio?_of_small _ d.ratio_den_ne_zero hsmall] at h
    have hzero : x.isZero = true := by
      rw [← Option.some.inj h]
      rfl
    simp [hx] at hzero
  · by_contra hlarge
    rw [not_lt, ← ratio_eq_value] at hlarge
    rw [Binary64.ofRatio?_of_large _ d.ratio_den_ne_zero hlarge] at h
    cases h

/-! ## Writing a number -/

theorem exact_value (x : Binary64) : (exact x).value = x.magnitude := by
  simp only [exact, value, Binary64.magnitude, Nat.pow_eq]
  split
  · next he =>
      obtain ⟨k, hk⟩ := Int.eq_ofNat_of_zero_le he
      rw [hk]
      push_cast
      rw [Int.toNat_natCast, zpow_natCast, mul_one]
  · next he =>
      obtain ⟨k, hk⟩ := Int.eq_ofNat_of_zero_le (show 0 ≤ -x.exponent by omega)
      have hexp : x.exponent = -(k : Int) := by omega
      rw [hk, hexp]
      push_cast
      rw [Int.toNat_natCast, zpow_neg, zpow_neg, zpow_natCast, zpow_natCast,
        show (10 : ℚ) = 5 * 2 by norm_num, mul_pow]
      field_simp

theorem mantissa_ne_zero {x : Binary64} (hx : x.isZero = false) : x.mantissa ≠ 0 := by
  simpa [Binary64.isZero] using hx

/-- The full expansion reads back. -/
theorem toBinary64?_exact {x : Binary64} (hx : x.isZero = false) :
    (exact x).toBinary64? x.negative = some x := by
  have hvalue : ((exact x).ratio.1 : ℚ) / (exact x).ratio.2 = x.magnitude := by
    rw [ratio_eq_value, exact_value]
  rw [toBinary64?_eq_ofRatio?]
  refine Binary64.ofRatio?_magnitude x ?_ (ratio_den_ne_zero _) hvalue
  intro hnum
  have hpos : 0 < x.magnitude := by
    have := mantissa_ne_zero hx
    unfold Binary64.magnitude
    positivity
  rw [← hvalue, hnum, Nat.cast_zero, zero_div] at hpos
  exact lt_irrefl 0 hpos

/-- The decimal that a number is written with reads back as the number. -/
theorem toBinary64?_shortest {x : Binary64} (hx : x.isZero = false) :
    (shortest x).toBinary64? x.negative = some x := by
  unfold shortest
  -- A candidate is kept only if it reads back, and the full expansion always does.
  cases hfind : (candidates x.ratio.1 x.ratio.2).find?
      fun d => d.toBinary64? x.negative == some x with
  | none => exact toBinary64?_exact hx
  | some d => simpa using List.find?_some hfind

theorem trimmed_go_value (fuel : Nat) (d : Decimal) : (trimmed.go fuel d).value = d.value := by
  induction fuel generalizing d with
  | zero => rfl
  | succ fuel ih =>
      unfold trimmed.go
      split
      · next hzero =>
          obtain ⟨k, hk⟩ := Nat.dvd_of_mod_eq_zero hzero.2
          rw [ih]
          simp only [value, hk, Nat.mul_div_cancel_left k (by norm_num : 0 < 10)]
          rw [zpow_add₀ (by norm_num), zpow_one]
          push_cast
          ring
      · rfl

/-- Moving zeros into the exponent keeps the value. -/
theorem trimmed_value (d : Decimal) : d.trimmed.value = d.value :=
  trimmed_go_value _ d

end TypedJson.Decimal
