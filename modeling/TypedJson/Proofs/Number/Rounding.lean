import Mathlib.Algebra.Order.Field.Power
import Mathlib.Data.Nat.Cast.Field
import Mathlib.Data.Rat.Lemmas
import Mathlib.Tactic.FieldSimp
import Mathlib.Tactic.GCongr
import Mathlib.Tactic.Linarith
import Mathlib.Tactic.NormNum
import Mathlib.Tactic.Positivity
import Mathlib.Tactic.Ring
import TypedJson.Number.Binary64

/-!
# Rounding to binary64 numbers

`Binary64.ofRatio?` works on whole numbers; here it is read as rounding of the rational
number that the ratio stands for. `ofRatio?_eq` says what it computes: the exponent that
brings the ratio between `2 ^ 52` and `2 ^ 53` units, cut off at the lowest one, and the
nearest whole number of units. The other facts follow from it: only the value of the ratio
matters (`ofRatio?_congr`), a value that the format has is kept (`ofRatio?_magnitude`), and
values out of range give nothing or zero (`ofRatio?_of_large`, `ofRatio?_of_small`).
-/

set_option autoImplicit false

namespace TypedJson.Binary64

/-- The magnitude of a binary64 number. -/
def magnitude (x : Binary64) : ℚ :=
  x.mantissa * 2 ^ x.exponent

theorem canonical_iff {mantissa : Nat} {exponent : Int} :
    Canonical mantissa exponent ↔ mantissa < 2 ^ 53 ∧ -1074 ≤ exponent ∧ exponent ≤ 971 ∧
      (2 ^ 52 ≤ mantissa ∨ exponent = -1074) :=
  Iff.rfl

/-! ## The nearest whole number -/

theorem nearest_mul (k d : Nat) (hd : 0 < d) : nearest (k * d) d = k := by
  simp [nearest, hd]

theorem nearest_of_lt_half {n d : Nat} (h : 2 * n < d) : nearest n d = 0 := by
  have hlt : n < d := by omega
  simp [nearest, Nat.div_eq_of_lt hlt, Nat.mod_eq_of_lt hlt, h]

/-! ## The exponent -/

theorem scaled_pos (num : Nat) {den : Nat} (hden : 0 < den) (e : Int) :
    0 < (scaled num den e).2 := by
  simp only [scaled, Nat.pow_eq]
  split
  · positivity
  · exact hden

/-- Scaling moves a ratio to units of `2 ^ e`. -/
theorem scaled_ratio (num : Nat) {den : Nat} (hden : 0 < den) (e : Int) :
    ((scaled num den e).1 : ℚ) / (scaled num den e).2 = num / den * 2 ^ (-e) := by
  have hden' : (den : ℚ) ≠ 0 := by positivity
  simp only [scaled, Nat.pow_eq]
  split
  · next he =>
      obtain ⟨k, rfl⟩ := Int.eq_ofNat_of_zero_le he
      push_cast
      rw [zpow_neg, zpow_natCast, Int.toNat_natCast]
      field_simp
  · next he =>
      obtain ⟨k, hk⟩ := Int.eq_ofNat_of_zero_le (show 0 ≤ -e by omega)
      rw [hk]
      push_cast
      rw [zpow_natCast, Int.toNat_natCast]
      field_simp

/-- The binary logarithms bound a ratio within a factor of two on either side. -/
theorem ratio_bounds {num den : Nat} (hnum : num ≠ 0) (hden : den ≠ 0) :
    (2 : ℚ) ^ ((num.log2 : Int) - den.log2 - 1) < num / den ∧
      (num : ℚ) / den < 2 ^ ((num.log2 : Int) - den.log2 + 1) := by
  have hnumLow : ((2 ^ num.log2 : Nat) : ℚ) ≤ num := by exact_mod_cast Nat.log2_self_le hnum
  have hnumHigh : (num : ℚ) < (2 ^ (num.log2 + 1) : Nat) := by exact_mod_cast Nat.lt_log2_self
  have hdenLow : ((2 ^ den.log2 : Nat) : ℚ) ≤ den := by exact_mod_cast Nat.log2_self_le hden
  have hdenHigh : (den : ℚ) < (2 ^ (den.log2 + 1) : Nat) := by exact_mod_cast Nat.lt_log2_self
  have hdenPos : (0 : ℚ) < den := by positivity
  push_cast at hnumLow hnumHigh hdenLow hdenHigh
  constructor
  · rw [lt_div_iff₀ hdenPos]
    calc (2 : ℚ) ^ ((num.log2 : Int) - den.log2 - 1) * den
        < 2 ^ ((num.log2 : Int) - den.log2 - 1) * 2 ^ (den.log2 + 1) := by gcongr
      _ = 2 ^ num.log2 := by
        rw [← zpow_natCast, ← zpow_natCast, ← zpow_add₀ (by norm_num)]
        congr 1
        push_cast
        ring
      _ ≤ num := hnumLow
  · rw [div_lt_iff₀ hdenPos]
    calc (num : ℚ) < 2 ^ (num.log2 + 1) := hnumHigh
      _ = 2 ^ ((num.log2 : Int) - den.log2 + 1) * 2 ^ den.log2 := by
        rw [← zpow_natCast, ← zpow_natCast, ← zpow_add₀ (by norm_num)]
        congr 1
        push_cast
        ring
      _ ≤ 2 ^ ((num.log2 : Int) - den.log2 + 1) * den := by gcongr

/-- The value lies between `2 ^ 52` and `2 ^ 53` units of `2 ^ e`. -/
def FitsAt (v : ℚ) (e : Int) : Prop :=
  2 ^ (52 + e) ≤ v ∧ v < 2 ^ (53 + e)

theorem lt_of_two_zpow_lt {e f : Int} (h : (2 : ℚ) ^ e < 2 ^ f) : e < f :=
  (zpow_lt_zpow_iff_right₀ (by norm_num)).1 h

theorem exponentFor_fits {num den : Nat} (hnum : num ≠ 0) (hden : den ≠ 0) :
    ∃ e : Int, FitsAt (num / den) e ∧ exponentFor num den = max (-1074) e := by
  obtain ⟨hlow, hhigh⟩ := ratio_bounds hnum hden
  have hdenPos : 0 < den := Nat.pos_of_ne_zero hden
  set guess : Int := (num.log2 : Int) - den.log2 - 53 with hguess
  have hscaledPos : (0 : ℚ) < (scaled num den guess).2 := by
    exact_mod_cast scaled_pos num hdenPos guess
  -- The comparison of whole numbers asks whether the guess leaves less than `2 ^ 53` units.
  have hcompare : (scaled num den guess).1 < 2 ^ 53 * (scaled num den guess).2 ↔
      (num : ℚ) / den < 2 ^ (53 + guess) := by
    rw [← Nat.cast_lt (α := ℚ)]
    push_cast
    rw [← div_lt_iff₀ hscaledPos, scaled_ratio num hdenPos, zpow_neg, ← div_eq_mul_inv,
      div_lt_iff₀ (by positivity), zpow_add₀ (by norm_num)]
    norm_num
  by_cases hfits : (num : ℚ) / den < 2 ^ (53 + guess)
  · refine ⟨guess, ⟨?_, hfits⟩, ?_⟩
    · have hexp : (num.log2 : Int) - den.log2 - 1 = 52 + guess := by omega
      rw [hexp] at hlow
      exact hlow.le
    · simp only [exponentFor, Nat.pow_eq, ← hguess, hcompare.2 hfits, if_true]
  · refine ⟨guess + 1, ⟨?_, ?_⟩, ?_⟩
    · have hexp : 52 + (guess + 1) = 53 + guess := by omega
      rw [hexp]
      exact not_lt.1 hfits
    · have hexp : 53 + (guess + 1) = (num.log2 : Int) - den.log2 + 1 := by omega
      rw [hexp]
      exact hhigh
    · have hno : ¬ (scaled num den guess).1 < 2 ^ 53 * (scaled num den guess).2 :=
        fun h => hfits (hcompare.1 h)
      simp only [exponentFor, Nat.pow_eq, ← hguess, hno, if_false]

/-! ## Rounding a ratio -/

/-- The whole number of units of `2 ^ e`, which a carry may take to the next exponent. -/
def pack (negative : Bool) (mantissa : Nat) (e : Int) : Option Binary64 :=
  if mantissa = 2 ^ 53 then make? negative (2 ^ 52) (e + 1) else make? negative mantissa e

section LowestTerms

variable (num : Nat) {den : Nat}

theorem reduced_den_pos (hden : den ≠ 0) : 0 < den / num.gcd den :=
  Nat.div_pos (Nat.gcd_le_right num (Nat.pos_of_ne_zero hden))
    (Nat.gcd_pos_of_pos_right num (Nat.pos_of_ne_zero hden))

theorem reduced_ratio (hden : den ≠ 0) :
    ((num / num.gcd den : Nat) : ℚ) / (den / num.gcd den : Nat) = num / den := by
  have hgcd : ((num.gcd den : Nat) : ℚ) ≠ 0 := by
    exact_mod_cast fun h => hden (Nat.gcd_eq_zero_iff.1 h).2
  rw [Nat.cast_div (Nat.gcd_dvd_left num den) hgcd, Nat.cast_div (Nat.gcd_dvd_right num den) hgcd]
  field_simp

theorem reduced_coprime (hden : den ≠ 0) :
    (num / num.gcd den).Coprime (den / num.gcd den) :=
  Nat.coprime_div_gcd_div_gcd (Nat.gcd_pos_of_pos_right num (Nat.pos_of_ne_zero hden))

end LowestTerms

/-- The rounding of a ratio depends on the value of the ratio only. -/
theorem ofRatio?_eq (negative : Bool) {num den : Nat} (hnum : num ≠ 0) (hden : den ≠ 0) :
    ∃ (e : Int) (n d : Nat), FitsAt (num / den) e ∧ 0 < d ∧
      (n : ℚ) / d = num / den * 2 ^ (-max (-1074) e) ∧
      ofRatio? negative num den = pack negative (nearest n d) (max (-1074) e) := by
  have hnum' : num / num.gcd den ≠ 0 := by
    intro h
    have hratio := reduced_ratio num hden
    rw [h, Nat.cast_zero, zero_div, eq_comm, div_eq_zero_iff] at hratio
    simp [hnum, hden] at hratio
  obtain ⟨e, hfits, hexp⟩ := exponentFor_fits hnum' (reduced_den_pos num hden).ne'
  have hunits := scaled_ratio (num / num.gcd den) (reduced_den_pos num hden) (max (-1074) e)
  rw [reduced_ratio num hden] at hfits hunits
  refine ⟨e, _, _, hfits, scaled_pos _ (reduced_den_pos num hden) _, hunits, ?_⟩
  simp only [ofRatio?, hnum, if_false, ofReduced?, hexp, pack, Nat.pow_eq]

/-- Two ratios with the same value are rounded alike: in lowest terms they are one. -/
theorem ofRatio?_congr (negative : Bool) {num den num' den' : Nat} (hden : den ≠ 0)
    (hden' : den' ≠ 0) (h : (num : ℚ) / den = num' / den') :
    ofRatio? negative num den = ofRatio? negative num' den' := by
  have hzero : num = 0 ↔ num' = 0 := by
    have hiff : (num : ℚ) / den = 0 ↔ (num' : ℚ) / den' = 0 := by rw [h]
    simpa [hden, hden'] using hiff
  have hterms : ((num / num.gcd den : Nat) : Int) = (num' / num'.gcd den' : Nat) ∧
      ((den / num.gcd den : Nat) : Int) = (den' / num'.gcd den' : Nat) := by
    apply Rat.div_int_inj
    · exact_mod_cast reduced_den_pos num hden
    · exact_mod_cast reduced_den_pos num' hden'
    · exact reduced_coprime num hden
    · exact reduced_coprime num' hden'
    · simp only [Int.cast_natCast]
      rw [reduced_ratio num hden, reduced_ratio num' hden', h]
  have hnumEq : num / num.gcd den = num' / num'.gcd den' := by exact_mod_cast hterms.1
  have hdenEq : den / num.gcd den = den' / num'.gcd den' := by exact_mod_cast hterms.2
  simp only [ofRatio?, hzero, hnumEq, hdenEq]

/-- A value from `2 ^ 1024` on is past the largest number. -/
theorem ofRatio?_of_large (negative : Bool) {num den : Nat} (hden : den ≠ 0)
    (h : (2 : ℚ) ^ (1024 : Int) ≤ num / den) : ofRatio? negative num den = none := by
  have hnum : num ≠ 0 := by
    rintro rfl
    have hpos : (0 : ℚ) < 2 ^ (1024 : Int) := by positivity
    rw [Nat.cast_zero, zero_div] at h
    exact absurd h (not_le.2 hpos)
  obtain ⟨e, n, d, hfits, -, -, hround⟩ := ofRatio?_eq negative hnum hden
  have hexp := lt_of_two_zpow_lt (lt_of_le_of_lt h hfits.2)
  have hmax : max (-1074) e = e := by omega
  rw [hround, hmax, pack, make?, make?]
  split
  · exact dif_neg fun hcanonical => by have := hcanonical.2.2.1; omega
  · exact dif_neg fun hcanonical => by have := hcanonical.2.2.1; omega

/-- A value below half a unit of the lowest exponent is rounded to zero. -/
theorem ofRatio?_of_small (negative : Bool) {num den : Nat} (hden : den ≠ 0)
    (h : (num : ℚ) / den < 2 ^ (-1075 : Int)) :
    ofRatio? negative num den = some (zero negative) := by
  by_cases hnum : num = 0
  · simp [ofRatio?, hnum]
  · obtain ⟨e, n, d, hfits, hd, hunits, hround⟩ := ofRatio?_eq negative hnum hden
    have hexp := lt_of_two_zpow_lt (lt_of_le_of_lt hfits.1 h)
    have hmax : max (-1074) e = -1074 := by omega
    rw [hmax] at hunits hround
    have hhalf : 2 * n < d := by
      have hlt : (n : ℚ) / d < 1 / 2 := by
        calc (n : ℚ) / d = num / den * 2 ^ (-(-1074) : Int) := hunits
          _ < 2 ^ (-1075 : Int) * 2 ^ (-(-1074) : Int) := by gcongr
          _ = 1 / 2 := by
            rw [← zpow_add₀ (by norm_num)]
            norm_num
      rw [div_lt_iff₀ (by positivity)] at hlt
      have : (2 * n : ℚ) < d := by linarith
      exact_mod_cast this
    rw [hround, nearest_of_lt_half hhalf]
    rfl

/-- A value that the format has is kept. -/
theorem ofRatio?_magnitude (x : Binary64) {num den : Nat} (hnum : num ≠ 0) (hden : den ≠ 0)
    (h : (num : ℚ) / den = x.magnitude) : ofRatio? x.negative num den = some x := by
  obtain ⟨e, n, d, hfits, hd, hunits, hround⟩ := ofRatio?_eq x.negative hnum hden
  obtain ⟨hsize, hlow, hhigh, hform⟩ := canonical_iff.1 x.canonical
  rw [h] at hfits hunits
  -- The exponent of the format is the one that the ratio fits at, cut off at the lowest.
  have hexp : max (-1074) e = x.exponent := by
    have hbelow : x.magnitude < 2 ^ (53 + x.exponent) := by
      rw [magnitude, zpow_add₀ (by norm_num)]
      gcongr
      exact_mod_cast hsize
    have hle := lt_of_two_zpow_lt (lt_of_le_of_lt hfits.1 hbelow)
    rcases hform with hfull | hlowest
    · have habove : (2 : ℚ) ^ (52 + x.exponent) ≤ x.magnitude := by
        rw [magnitude, zpow_add₀ (by norm_num)]
        gcongr
        exact_mod_cast hfull
      have hge := lt_of_two_zpow_lt (lt_of_le_of_lt habove hfits.2)
      omega
    · omega
  rw [hexp] at hunits hround
  have hmantissa : n = x.mantissa * d := by
    have hd' : (d : ℚ) ≠ 0 := by positivity
    rw [magnitude, mul_assoc, ← zpow_add₀ (by norm_num), add_neg_cancel, zpow_zero, mul_one,
      div_eq_iff hd'] at hunits
    exact_mod_cast hunits
  rw [hround, hmantissa, nearest_mul x.mantissa d hd, pack, if_neg (by omega), make?,
    dif_pos x.canonical]

end TypedJson.Binary64
