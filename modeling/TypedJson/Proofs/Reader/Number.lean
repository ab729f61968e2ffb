import TypedJson.Proofs.Number.Decimal
import TypedJson.Reader.Scalar

/-!
# Numbers read back from their texts

The text of a number, followed by something that cannot belong to a number, reads as that
number and leaves what follows (`number_intText`, `number_text`). For a binary64 number this
rests on its decimal reading back: all notations of a decimal give the reader digits and a
power of ten with the value of the decimal.
-/

set_option autoImplicit false

namespace TypedJson

namespace Reader

/-! ## Runs of digits -/

/-- No digit comes next. -/
def NoDigitNext (s : List Char) : Prop :=
  ∀ c t, s = c :: t → isDigit c = false

/-- Nothing comes next that would belong to a number. -/
def EndsNumber (s : List Char) : Prop :=
  ∀ c t, s = c :: t → isDigit c = false ∧ c ≠ '.' ∧ c ≠ 'e' ∧ c ≠ 'E'

theorem EndsNumber.noDigitNext {s : List Char} (h : EndsNumber s) : NoDigitNext s :=
  fun c t hs => (h c t hs).1

theorem noDigitNext_cons {c : Char} (t : List Char) (h : isDigit c = false) :
    NoDigitNext (c :: t) := by
  intro c' t' hs
  cases hs
  exact h

theorem endsNumber_nil : EndsNumber [] := by
  intro c t hs
  cases hs

theorem endsNumber_cons {c : Char} (t : List Char)
    (h : isDigit c = false ∧ c ≠ '.' ∧ c ≠ 'e' ∧ c ≠ 'E') : EndsNumber (c :: t) := by
  intro c' t' hs
  cases hs
  exact h

theorem ne_of_isDigit {c d : Char} (hc : isDigit c = true) (hd : isDigit d = false) : c ≠ d := by
  rintro rfl
  rw [hc] at hd
  cases hd

/-- The run of digits in front of something else. -/
theorem span_digits {ds s : List Char} (hds : ∀ c ∈ ds, isDigit c = true) (hs : NoDigitNext s) :
    (ds ++ s).takeWhile isDigit = ds ∧ (ds ++ s).dropWhile isDigit = s := by
  rw [List.takeWhile_append_of_pos hds, List.dropWhile_append_of_pos hds]
  cases s with
  | nil => simp
  | cons c t => simp [hs c t rfl]

theorem digitsFrom_eq (n : Nat) (ds : List Char) : digitsFrom n ds = Nat.ofDigitChars 10 ds n := by
  simp [digitsFrom, Nat.ofDigitChars, Nat.mul_comm]

theorem digitsFrom_append (n : Nat) (ds es : List Char) :
    digitsFrom n (ds ++ es) = digitsFrom (digitsFrom n ds) es := by
  simp [digitsFrom]

theorem digitsFrom_zeros (n k : Nat) : digitsFrom n (Decimal.zeros k) = n * 10 ^ k := by
  rw [digitsFrom_eq, Decimal.zeros, Nat.ofDigitChars_replicate_zero, Nat.mul_comm]

theorem digitsFrom_toDigits (n : Nat) : digitsFrom 0 (Nat.toDigits 10 n) = n := by
  rw [digitsFrom_eq, Nat.ofDigitChars_toDigits (by norm_num) (by norm_num)]

theorem le_digitsFrom (n : Nat) (ds : List Char) : n ≤ digitsFrom n ds := by
  induction ds generalizing n with
  | nil => exact le_refl n
  | cons c ds ih =>
      have hgrown := ih (n * 10 + (c.toNat - 48))
      simp only [digitsFrom, List.foldl_cons] at hgrown ⊢
      omega

theorem isDigit_of_mem_toDigits {n : Nat} {c : Char} (h : c ∈ Nat.toDigits 10 n) :
    isDigit c = true :=
  Nat.isDigit_of_mem_toDigits (by norm_num) (by norm_num) h

theorem isDigit_of_mem_zeros {k : Nat} {c : Char} (h : c ∈ Decimal.zeros k) : isDigit c = true := by
  rw [List.eq_of_mem_replicate h]
  rfl

theorem exists_toDigits_eq_cons (n : Nat) :
    ∃ c ds, Nat.toDigits 10 n = c :: ds ∧ (c = '0' → n = 0 ∧ ds = []) := by
  induction n using Nat.strongRecOn with
  | _ n ih =>
      by_cases hlt : n < 10
      · refine ⟨n.digitChar, [], Nat.toDigits_of_lt_base hlt, ?_⟩
        intro hzero
        exact ⟨Nat.digitChar_eq_zero.1 hzero, rfl⟩
      · -- The last digit is split off, so the first one is that of the remaining digits.
        obtain ⟨c, ds, hds, hc⟩ := ih (n / 10) (by omega)
        refine ⟨c, ds ++ [(n % 10).digitChar], ?_, ?_⟩
        · rw [Nat.toDigits_of_base_le (by norm_num) (by omega), hds]
          rfl
        · intro hzero
          have := (hc hzero).1
          omega

/-- The digits of a number do not start with a zero, unless they are one zero. -/
theorem toDigits_eq_cons (n : Nat) :
    ∃ c ds, Nat.toDigits 10 n = c :: ds ∧ (∀ d ∈ c :: ds, isDigit d = true) ∧
      (c = '0' → n = 0 ∧ ds = []) := by
  obtain ⟨c, ds, hds, hzero⟩ := exists_toDigits_eq_cons n
  refine ⟨c, ds, hds, ?_, hzero⟩
  intro d hd
  rw [← hds] at hd
  exact isDigit_of_mem_toDigits hd

/-- The number of digits is the decimal magnitude. -/
theorem pow_length_toDigits {n : Nat} (hn : n ≠ 0) :
    10 ^ ((Nat.toDigits 10 n).length - 1) ≤ n ∧ n < 10 ^ (Nat.toDigits 10 n).length := by
  have hpos := Nat.length_toDigits_pos (b := 10) (n := n)
  constructor
  · by_contra hlow
    rw [not_le] at hlow
    by_cases hone : (Nat.toDigits 10 n).length - 1 = 0
    · rw [hone] at hlow
      omega
    · have := (Nat.length_toDigits_le_iff (by norm_num) (by omega)).2 hlow
      omega
  · exact (Nat.length_toDigits_le_iff (by norm_num) hpos).1 (le_refl _)

/-! ## The parts of a number -/

theorem wholePart_digits {c : Char} {ds s : List Char} (hds : ∀ d ∈ c :: ds, isDigit d = true)
    (hzero : c = '0' → ds = []) (hs : NoDigitNext s) :
    wholePart (c :: ds ++ s) = .ok (c :: ds, s) := by
  by_cases hc : c = '0'
  · rw [hzero hc, hc]
    cases s with
    | nil => rfl
    | cons d t => simp [wholePart, hs d t rfl]
  · obtain ⟨htake, hdrop⟩ := span_digits (fun d hd => hds d (List.mem_cons_of_mem c hd)) hs
    simp [wholePart, hc, hds c List.mem_cons_self, htake, hdrop]

theorem wholePart_toDigits (n : Nat) {s : List Char} (hs : NoDigitNext s) :
    wholePart (Nat.toDigits 10 n ++ s) = .ok (Nat.toDigits 10 n, s) := by
  obtain ⟨c, ds, hds, hdigits, hc⟩ := toDigits_eq_cons n
  rw [hds]
  exact wholePart_digits hdigits (fun hzero => (hc hzero).2) hs

theorem fraction_digits {ds s : List Char} (hne : ds ≠ []) (hds : ∀ d ∈ ds, isDigit d = true)
    (hs : NoDigitNext s) : fraction ('.' :: (ds ++ s)) = .ok (some ds, s) := by
  obtain ⟨htake, hdrop⟩ := span_digits hds hs
  cases ds with
  | nil => exact absurd rfl hne
  | cons c ds =>
      have hc := hds c List.mem_cons_self
      simp only [List.cons_append] at htake hdrop ⊢
      simp only [fraction, hc, htake, hdrop, if_true]

theorem fraction_none {s : List Char} (hs : ∀ c t, s = c :: t → c ≠ '.') :
    fraction s = .ok (none, s) := by
  cases s with
  | nil => rfl
  | cons c t =>
      have hc := hs c t rfl
      unfold fraction
      split
      · next heq =>
          cases heq
          exact absurd rfl hc
      · rfl

theorem exponent_none {s : List Char} (hs : ∀ c t, s = c :: t → c ≠ 'e' ∧ c ≠ 'E') :
    exponent s = .ok (none, s) := by
  cases s with
  | nil => rfl
  | cons c t => simp [exponent, hs c t rfl]

theorem exponentDigits_digits {n : Nat} {ds s : List Char} (hds : ∀ d ∈ ds, isDigit d = true)
    (hs : NoDigitNext s) (hlimit : digitsFrom n ds ≤ exponentLimit) :
    exponentDigits n (ds ++ s) = (.counted (digitsFrom n ds), s) := by
  induction ds generalizing n with
  | nil =>
      cases s with
      | nil => rfl
      | cons c t => simp [exponentDigits, hs c t rfl, digitsFrom]
  | cons c ds ih =>
      have hc := hds c List.mem_cons_self
      have hgrown : n * 10 + (c.toNat - 48) ≤ exponentLimit :=
        le_trans (le_digitsFrom _ ds) hlimit
      have hrest := ih (fun d hd => hds d (List.mem_cons_of_mem c hd)) hlimit
      simp only [List.cons_append, exponentDigits, hc, if_true, not_lt.2 hgrown, if_false]
      exact hrest

/-- A signed exponent. -/
theorem exponent_toDigits (power : Int) {s : List Char} (hs : NoDigitNext s)
    (hlimit : power.natAbs ≤ exponentLimit) :
    exponent ('e' :: (if power < 0 then '-' else '+') :: (Nat.toDigits 10 power.natAbs ++ s)) =
      .ok (some ⟨decide (power < 0), .counted power.natAbs⟩, s) := by
  obtain ⟨c, ds, hds, hdigits, -⟩ := toDigits_eq_cons power.natAbs
  have hvalue : digitsFrom (c.toNat - 48) ds = power.natAbs := by
    have hall := digitsFrom_toDigits power.natAbs
    rw [hds] at hall
    simpa [digitsFrom] using hall
  have hread := exponentDigits_digits (n := c.toNat - 48)
    (fun d hd => hdigits d (List.mem_cons_of_mem c hd)) hs (hvalue.trans_le hlimit)
  rw [hvalue] at hread
  rw [hds]
  by_cases hneg : power < 0
  · simp [exponent, hneg, hdigits c List.mem_cons_self, hread]
  · simp [exponent, hneg, hdigits c List.mem_cons_self, hread]

/-! ## Whole numbers -/

section Parts

variable {negative : Bool} {s s₁ s₂ s₃ whole : List Char} {places : Option (List Char)}
  {e : Option Exponent}

/-- Without a point and without an exponent the digits are a whole number. -/
theorem number_of_whole (hwhole : wholePart s = .ok (whole, s₁))
    (hplaces : fraction s₁ = .ok (none, s₂)) (he : exponent s₂ = .ok (none, s₃)) {n : Number}
    (hn : Number.ofDigits? negative (digitsFrom 0 whole) = some n) :
    number negative s = .ok (n, s₃) := by
  unfold number
  rw [hwhole]
  change ((fraction s₁) >>= _) = _
  rw [hplaces]
  change ((exponent s₂) >>= _) = _
  rw [he]
  simp only [bind, Except.bind, hn]

/-- With a point or an exponent the digits are those of a binary64 number. -/
theorem number_of_float (hwhole : wholePart s = .ok (whole, s₁))
    (hplaces : fraction s₁ = .ok (places, s₂)) (he : exponent s₂ = .ok (e, s₃))
    (hsome : places.isSome = true ∨ e.isSome = true) :
    number negative s =
      floatOf negative (digitsFrom (digitsFrom 0 whole) (places.getD [])) (places.getD []).length
        e s₃ := by
  unfold number
  rw [hwhole]
  change ((fraction s₁) >>= _) = _
  rw [hplaces]
  change ((exponent s₂) >>= _) = _
  rw [he]
  cases places with
  | none =>
      cases e with
      | none => simp at hsome
      | some e => rfl
  | some after => rfl

end Parts

theorem EndsNumber.fraction_eq {s : List Char} (hs : EndsNumber s) : fraction s = .ok (none, s) :=
  fraction_none fun c t h => (hs c t h).2.1

theorem EndsNumber.exponent_eq {s : List Char} (hs : EndsNumber s) : exponent s = .ok (none, s) :=
  exponent_none fun c t h => (hs c t h).2.2

/-- The digits of a number in range are read as an integer; minus zero is none. -/
theorem ofDigits?_eq_int {negative : Bool} {n : Nat} {i : Int}
    (hi : i = if negative then -(n : Int) else n) (hrange : Number.InRange i)
    (hzero : negative = true → n ≠ 0) : Number.ofDigits? negative n = some (.int i hrange) := by
  subst hi
  have hminus : (negative && n == 0) = false := by
    cases negative with
    | false => rfl
    | true => simpa using hzero rfl
  simp only [Number.ofDigits?, hminus, Bool.false_eq_true, if_false]
  exact dif_pos hrange

/-! ## Notations of a decimal -/

theorem floatOf_none {negative : Bool} {digits places : Nat} {x : Binary64} (rest : List Char)
    (h : Decimal.toBinary64? negative ⟨digits, -(places : Int)⟩ = some x) :
    floatOf negative digits places none rest = .ok (.float x, rest) := by
  simp [floatOf, h]

theorem floatOf_counted {negative : Bool} {digits places : Nat} {power : Int} {x : Binary64}
    (rest : List Char)
    (h : Decimal.toBinary64? negative ⟨digits, power - (places : Int)⟩ = some x) :
    floatOf negative digits places (some ⟨decide (power < 0), .counted power.natAbs⟩) rest =
      .ok (.float x, rest) := by
  have hpower : (if power < 0 then -(power.natAbs : Int) else power.natAbs) = power := by
    split <;> omega
  simp only [floatOf, decide_eq_true_eq, hpower, h]

/-- Digits with a point among them, and neither a leading zero nor an exponent. -/
theorem number_point {negative : Bool} {c : Char} {ds es s : List Char} {x : Binary64}
    (hds : ∀ d ∈ c :: ds, isDigit d = true) (hzero : c = '0' → ds = []) (hne : es ≠ [])
    (hes : ∀ d ∈ es, isDigit d = true) (hs : EndsNumber s)
    (h : Decimal.toBinary64? negative ⟨digitsFrom 0 (c :: ds ++ es), -(es.length : Int)⟩ = some x) :
    number negative (c :: ds ++ '.' :: (es ++ s)) = .ok (.float x, s) := by
  rw [number_of_float (wholePart_digits hds hzero (noDigitNext_cons (es ++ s) rfl))
    (fraction_digits hne hes hs.noDigitNext) hs.exponent_eq (Or.inl rfl)]
  rw [digitsFrom_append] at h
  exact floatOf_none s h

section Notations

variable {negative : Bool} {n : Nat} {x : Binary64} {s : List Char}

/-- The digits of a positive number, the first one apart. -/
theorem toDigits_of_ne_zero (hn : n ≠ 0) :
    ∃ c ds, Nat.toDigits 10 n = c :: ds ∧ c ≠ '0' ∧ ∀ d ∈ c :: ds, isDigit d = true := by
  obtain ⟨c, ds, hds, hdigits, hc⟩ := toDigits_eq_cons n
  exact ⟨c, ds, hds, fun hzero => hn (hc hzero).1, hdigits⟩

/-- Digits and zeros before the point, one more zero after it. -/
theorem number_zeros_point (hn : n ≠ 0) (k : Nat)
    (h : Decimal.toBinary64? negative ⟨n, k⟩ = some x) (hs : EndsNumber s) :
    number negative (Nat.toDigits 10 n ++ Decimal.zeros k ++ ['.', '0'] ++ s) =
      .ok (.float x, s) := by
  obtain ⟨c, ds, hds, hc, hdigits⟩ := toDigits_of_ne_zero hn
  have hall : ∀ d ∈ c :: (ds ++ Decimal.zeros k), isDigit d = true := by
    intro d hd
    rcases List.mem_append.1 (show d ∈ (c :: ds) ++ Decimal.zeros k from hd) with hd | hd
    · exact hdigits d hd
    · exact isDigit_of_mem_zeros hd
  have hdigitsFrom : digitsFrom 0 (c :: (ds ++ Decimal.zeros k) ++ ['0']) = n * 10 ^ k * 10 := by
    rw [show c :: (ds ++ Decimal.zeros k) ++ ['0'] =
        Nat.toDigits 10 n ++ Decimal.zeros k ++ Decimal.zeros 1 by simp [hds, Decimal.zeros],
      digitsFrom_append, digitsFrom_append, digitsFrom_toDigits, digitsFrom_zeros, digitsFrom_zeros,
      pow_one]
  have hread : Decimal.toBinary64? negative ⟨digitsFrom 0 (c :: (ds ++ Decimal.zeros k) ++ ['0']),
      -((['0'] : List Char).length : Int)⟩ = some x := by
    rw [← h, hdigitsFrom]
    apply Decimal.toBinary64?_congr
    simp only [Decimal.value, List.length_singleton]
    push_cast
    rw [zpow_natCast, zpow_neg]
    field_simp
  have hnumber :=
    number_point hall (fun hzero => absurd hzero hc) (by simp) (by simp [isDigit]) hs hread
  simpa [hds] using hnumber

/-- The point among the digits. -/
theorem number_point_among (hn : n ≠ 0) {p : Nat} (hpos : 0 < p)
    (hlt : p < (Nat.toDigits 10 n).length)
    (h : Decimal.toBinary64? negative ⟨n, -((Nat.toDigits 10 n).length - p : Int)⟩ = some x)
    (hs : EndsNumber s) :
    number negative ((Nat.toDigits 10 n).take p ++ '.' :: (Nat.toDigits 10 n).drop p ++ s) =
      .ok (.float x, s) := by
  obtain ⟨c, ds, hds, hc, hdigits⟩ := toDigits_of_ne_zero hn
  obtain ⟨q, rfl⟩ : ∃ q, p = q + 1 := ⟨p - 1, by omega⟩
  have hread : Decimal.toBinary64? negative ⟨digitsFrom 0 (c :: ds.take q ++ ds.drop q),
      -((ds.drop q).length : Int)⟩ = some x := by
    have hsplit : c :: ds.take q ++ ds.drop q = Nat.toDigits 10 n := by simp [hds]
    have hlength : ((ds.drop q).length : Int) = (Nat.toDigits 10 n).length - (q + 1 : Nat) := by
      simp only [hds, List.length_drop, List.length_cons] at hlt ⊢
      omega
    rw [hsplit, digitsFrom_toDigits, hlength]
    exact h
  have hfront : ∀ d ∈ c :: ds.take q, isDigit d = true := by
    intro d hd
    rcases List.mem_cons.1 hd with rfl | hd
    · exact hdigits d List.mem_cons_self
    · exact hdigits d (List.mem_cons_of_mem c (List.mem_of_mem_take hd))
  have hback : ∀ d ∈ ds.drop q, isDigit d = true :=
    fun d hd => hdigits d (List.mem_cons_of_mem c (List.mem_of_mem_drop hd))
  have hne : ds.drop q ≠ [] := by
    simp only [hds, List.length_cons] at hlt
    simp only [ne_eq, List.drop_eq_nil_iff]
    omega
  have hnumber := number_point hfront (fun hzero => absurd hzero hc) hne hback hs hread
  simpa [hds] using hnumber

/-- Zeros between the point and the digits. -/
theorem number_point_zeros (k : Nat)
    (h : Decimal.toBinary64? negative ⟨n, -((k : Int) + (Nat.toDigits 10 n).length)⟩ = some x)
    (hs : EndsNumber s) :
    number negative ('0' :: '.' :: (Decimal.zeros k ++ Nat.toDigits 10 n) ++ s) =
      .ok (.float x, s) := by
  have hread : Decimal.toBinary64? negative
      ⟨digitsFrom 0 (['0'] ++ (Decimal.zeros k ++ Nat.toDigits 10 n)),
        -((Decimal.zeros k ++ Nat.toDigits 10 n).length : Int)⟩ = some x := by
    -- Leading zeros add nothing to the digits, but each of them is a place.
    have hdigitsFrom : digitsFrom 0 (['0'] ++ (Decimal.zeros k ++ Nat.toDigits 10 n)) = n := by
      rw [show ['0'] = Decimal.zeros 1 from rfl, digitsFrom_append, digitsFrom_append,
        digitsFrom_zeros, digitsFrom_zeros, Nat.zero_mul, Nat.zero_mul, digitsFrom_toDigits]
    have hlength : ((Decimal.zeros k ++ Nat.toDigits 10 n).length : Int) =
        k + (Nat.toDigits 10 n).length := by simp [Decimal.zeros]
    rw [hdigitsFrom, hlength]
    exact h
  have hall : ∀ d ∈ Decimal.zeros k ++ Nat.toDigits 10 n, isDigit d = true := by
    intro d hd
    rcases List.mem_append.1 hd with hd | hd
    · exact isDigit_of_mem_zeros hd
    · exact isDigit_of_mem_toDigits hd
  have hnumber := number_point (by simp [isDigit]) (fun _ => rfl) (by simp) hall hs hread
  simpa using hnumber

/-- Positional notation reads as the decimal. -/
theorem number_positional (hn : n ≠ 0) {e : Int} (h : Decimal.toBinary64? negative ⟨n, e⟩ = some x)
    (hs : EndsNumber s) :
    number negative (Decimal.positional (Nat.toDigits 10 n) e ++ s) = .ok (.float x, s) := by
  simp only [Decimal.positional]
  split
  · next he =>
      obtain ⟨k, rfl⟩ := Int.eq_ofNat_of_zero_le he
      exact number_zeros_point hn k h hs
  · next he =>
      split
      · next hpos =>
          apply number_point_among hn (by omega) (by omega) _ hs
          rw [← h]
          congr 2
          omega
      · next hpos =>
          apply number_point_zeros _ _ hs
          rw [← h]
          congr 2
          omega

/-- Scientific notation reads as the decimal. -/
theorem number_scientific (hn : n ≠ 0) {power : Int} (hlimit : power.natAbs ≤ exponentLimit)
    (h : Decimal.toBinary64? negative ⟨n, power - ((Nat.toDigits 10 n).length - 1 : Int)⟩ = some x)
    (hs : EndsNumber s) :
    number negative (Decimal.scientific (Nat.toDigits 10 n) power ++ s) = .ok (.float x, s) := by
  obtain ⟨c, ds, hds, hc, hdigits⟩ := toDigits_of_ne_zero hn
  have hvalue : digitsFrom 0 (c :: ds) = n := by rw [← hds, digitsFrom_toDigits]
  have hexponent := exponent_toDigits power hs.noDigitNext hlimit
  have hmark : ∀ t, NoDigitNext ('e' :: t) := fun t => noDigitNext_cons t rfl
  have hfirst : ∀ d ∈ [c], isDigit d = true := by
    intro d hd
    rw [List.mem_singleton.1 hd]
    exact hdigits c List.mem_cons_self
  rw [hds] at h ⊢
  cases ds with
  | nil =>
      have htext : Decimal.scientific [c] power ++ s =
          [c] ++ ('e' :: (if power < 0 then '-' else '+') ::
            (Nat.toDigits 10 power.natAbs ++ s)) := by
        simp [Decimal.scientific]
      rw [htext, number_of_float (wholePart_digits hfirst (fun _ => rfl) (hmark _))
        (fraction_none (by simp)) hexponent (Or.inr rfl)]
      apply floatOf_counted
      rw [← digitsFrom_append, Option.getD_none, List.append_nil, hvalue]
      simpa using h
  | cons d ds =>
      have htext : Decimal.scientific (c :: d :: ds) power ++ s = [c] ++ '.' :: ((d :: ds) ++
          ('e' :: (if power < 0 then '-' else '+') :: (Nat.toDigits 10 power.natAbs ++ s))) := by
        simp [Decimal.scientific]
      have hrest : ∀ d' ∈ d :: ds, isDigit d' = true :=
        fun d' hd' => hdigits d' (List.mem_cons_of_mem c hd')
      rw [htext, number_of_float
        (wholePart_digits hfirst (fun _ => rfl) (noDigitNext_cons _ rfl))
        (fraction_digits (List.cons_ne_nil d ds) hrest (hmark _)) hexponent (Or.inl rfl)]
      apply floatOf_counted
      rw [← digitsFrom_append, Option.getD_some, List.singleton_append, hvalue]
      simpa using h

/-- The power of ten that scientific notation shows stays small. -/
theorem natAbs_power_le (hn : n ≠ 0) {e : Int}
    (hlow : (2 : ℚ) ^ (-1075 : Int) ≤ Decimal.value ⟨n, e⟩)
    (hhigh : Decimal.value ⟨n, e⟩ < 2 ^ (1024 : Int)) :
    ((Nat.toDigits 10 n).length + e - 1 : Int).natAbs ≤ exponentLimit := by
  obtain ⟨hfloor, hceil⟩ := pow_length_toDigits hn
  set len := (Nat.toDigits 10 n).length with hlen
  have hpos : 0 < len := Nat.length_toDigits_pos
  have hfloor' : (10 : ℚ) ^ (len - 1 : Int) ≤ n := by
    rw [show (len - 1 : Int) = ((len - 1 : Nat) : Int) by omega, zpow_natCast]
    exact_mod_cast hfloor
  have hceil' : (n : ℚ) < 10 ^ (len : Int) := by
    rw [zpow_natCast]
    exact_mod_cast hceil
  -- The first digit gives the lower bound of the digits, their count the upper one.
  have hupper : (len + e - 1 : Int) < 1024 := by
    have hlt : (10 : ℚ) ^ (len + e - 1 : Int) < 10 ^ (1024 : Int) := by
      calc (10 : ℚ) ^ (len + e - 1 : Int) = 10 ^ (len - 1 : Int) * 10 ^ e := by
            rw [← zpow_add₀ (by norm_num)]
            congr 1
            ring
        _ ≤ n * 10 ^ e := by gcongr
        _ < 2 ^ (1024 : Int) := hhigh
        _ ≤ 10 ^ (1024 : Int) := by
          rw [show (1024 : Int) = (1024 : Nat) from rfl, zpow_natCast, zpow_natCast]
          exact pow_le_pow_left₀ (by norm_num) (by norm_num) 1024
    exact (zpow_lt_zpow_iff_right₀ (by norm_num)).1 hlt
  have hlower : (-1075 : Int) < len + e := by
    have hlt : (10 : ℚ) ^ (-1075 : Int) < 10 ^ (len + e : Int) := by
      calc (10 : ℚ) ^ (-1075 : Int) ≤ 2 ^ (-1075 : Int) := by
            rw [zpow_neg, zpow_neg, show (1075 : Int) = (1075 : Nat) from rfl, zpow_natCast,
              zpow_natCast]
            gcongr
            norm_num
        _ ≤ n * 10 ^ e := hlow
        _ < 10 ^ (len : Int) * 10 ^ e := by gcongr
        _ = 10 ^ (len + e : Int) := (zpow_add₀ (by norm_num) _ _).symm
    exact (zpow_lt_zpow_iff_right₀ (by norm_num)).1 hlt
  unfold exponentLimit
  omega

/-- A decimal, in the notation that it is written in, reads as the number. -/
theorem number_layout {d : Decimal} (hx : x.isZero = false)
    (h : d.toBinary64? x.negative = some x) (hs : EndsNumber s) :
    number x.negative (d.layout ++ s) = .ok (.float x, s) := by
  have htrimmed : d.trimmed.toBinary64? x.negative = some x := by
    rw [← h]
    exact Decimal.toBinary64?_congr x.negative d.trimmed_value
  obtain ⟨hlow, hhigh⟩ := Decimal.value_bounds htrimmed hx
  have hn : d.trimmed.digits ≠ 0 := by
    intro hzero
    have hpos : (0 : ℚ) < 2 ^ (-1075 : Int) := by positivity
    rw [Decimal.value, hzero, Nat.cast_zero, zero_mul] at hlow
    exact absurd hlow (not_le.2 hpos)
  simp only [Decimal.layout]
  split
  · exact number_positional hn htrimmed hs
  · apply number_scientific hn (natAbs_power_le hn hlow hhigh) _ hs
    rw [← htrimmed]
    congr 2
    omega

end Notations

/-! ## The texts of numbers -/

end Reader

namespace Number

/-- The sign that the text of a number shows. -/
def negative : Number → Bool
  | .int n _ => decide (n < 0)
  | .float x => x.negative

/-- The text of a number after its sign. -/
def magnitudeText : Number → List Char
  | .int n _ => Nat.toDigits 10 n.natAbs
  | .float x => if x.isZero then ['0', '.', '0'] else (Decimal.shortest x).layout

theorem text_eq (n : Number) :
    n.text = if n.negative then '-' :: n.magnitudeText else n.magnitudeText := by
  cases n with
  | int n fits => simp only [text, intText, negative, magnitudeText, decide_eq_true_eq]
  | float x => rfl

end Number

namespace Reader

/-- A zero has the lowest exponent, so that only its sign is free. -/
theorem eq_zero_of_isZero {x : Binary64} (hx : x.isZero = true) : x = .zero x.negative := by
  obtain ⟨negative, mantissa, exponent, hcanonical⟩ := x
  have hmantissa : mantissa = 0 := by simpa [Binary64.isZero] using hx
  have hexponent : exponent = -1074 := by
    rcases hcanonical.2.2.2 with hbit | hexponent
    · rw [hmantissa] at hbit
      exact absurd hbit (by decide)
    · exact hexponent
  subst hmantissa hexponent
  rfl

/-- The text of a number reads back, after its sign. -/
theorem number_magnitudeText (n : Number) {s : List Char} (hs : EndsNumber s) :
    number n.negative (n.magnitudeText ++ s) = .ok (n, s) := by
  cases n with
  | int n fits =>
      refine number_of_whole (wholePart_toDigits n.natAbs hs.noDigitNext) hs.fraction_eq
        hs.exponent_eq ?_
      rw [digitsFrom_toDigits]
      apply ofDigits?_eq_int
      · simp only [Number.negative, decide_eq_true_eq]
        split <;> omega
      · simp only [Number.negative, decide_eq_true_eq]
        omega
  | float x =>
      cases hx : x.isZero with
      | false =>
          simp only [Number.magnitudeText, hx, Bool.false_eq_true, if_false]
          exact number_layout hx (Decimal.toBinary64?_shortest hx) hs
      | true =>
          simp only [Number.magnitudeText, Number.negative, hx, if_true]
          change number x.negative ('0' :: [] ++ '.' :: (['0'] ++ s)) = _
          apply number_point (by simp [isDigit]) (fun _ => rfl) (by simp) (by simp [isDigit]) hs
          exact congrArg some (eq_zero_of_isZero hx).symm

/-- Only a digit starts a number. -/
theorem exists_digit_of_number {negative : Bool} {s : List Char} {r : Taken Number}
    (h : number negative s = .ok r) : ∃ c t, s = c :: t ∧ isDigit c = true := by
  cases s with
  | nil => cases h
  | cons c t =>
      refine ⟨c, t, rfl, ?_⟩
      by_contra hc
      have hnonzero : c ≠ '0' := by
        rintro rfl
        exact hc rfl
      simp [number, wholePart, hnonzero, hc, bind, Except.bind] at h

theorem magnitudeText_eq_cons (n : Number) :
    ∃ c t, n.magnitudeText = c :: t ∧ isDigit c = true := by
  have hread := number_magnitudeText n endsNumber_nil
  rw [List.append_nil] at hread
  exact exists_digit_of_number hread

end Reader

end TypedJson
