import Mathlib.Data.List.TakeWhile
import TypedJson.Proofs.Reader.Readings
import TypedJson.Reader.Skip

/-!
# What is passed over

Passing over a value is more lenient than reading one: nesting has no limit, numbers are not
converted and surrogates need not pair. Hence whatever `raw` reads, `skip` passes over, up to the
same place (`skip_of_raw`).

The scan spends its fuel on steps. `Passes` and `Leaves` say which run of steps takes it over one
value and out of an open bracket, with a bound on the steps that the fuel of `skip` exceeds; they
are put together from the parts of a reading, `ItemsRead` and `MembersRead`.
-/

set_option autoImplicit false

namespace TypedJson.Reader

variable {s t rest : List Char}

/-! ## Numbers -/

/-- What remains after the digits of an exponent that were counted up to the limit. -/
def ExponentSize.after : ExponentSize → List Char → List Char
  | .counted _, s => s
  | .excessive, s => s.dropWhile isDigit

/-- What remains after an exponent, if there is one. -/
def afterExponent (e : Option Exponent) (s : List Char) : List Char :=
  match e with
  | some e => e.size.after s
  | none => s

theorem after_exponentDigits (n : Nat) (s : List Char) :
    (exponentDigits n s).1.after (exponentDigits n s).2 = s.dropWhile isDigit := by
  induction s generalizing n with
  | nil => rfl
  | cons c s ih =>
      simp only [exponentDigits]
      split
      next hc =>
        rw [List.dropWhile_cons_of_pos hc]
        split
        · rfl
        · exact ih _
      next hc =>
        rw [List.dropWhile_cons_of_neg hc]
        rfl

/-- An exponent is passed over as it is read: after its sign, by its digits. -/
theorem skipPower_of_exponent {e : Option Exponent} (h : exponent s = .ok (e, t)) :
    skipPower s = .ok (afterExponent e t) := by
  have hdigits : ∀ {negative : Bool} {ds : List Char} {fault : Fault} {c : Char},
      (if isDigit c then
        Except.ok (some (Exponent.mk negative (exponentDigits (c.toNat - 48) ds).1),
          (exponentDigits (c.toNat - 48) ds).2)
      else .error fault) = Except.ok (e, t) →
      isDigit c = true ∧ ds.dropWhile isDigit = afterExponent e t := by
    intro negative ds fault c h
    split at h
    next hc =>
      cases h
      exact ⟨hc, (after_exponentDigits _ ds).symm⟩
    next => cases h
  rcases s with _ | ⟨mark, s⟩
  · cases h
    rfl
  simp only [exponent] at h
  rw [skipPower]
  split at h
  next hmark =>
    rw [if_pos hmark, skipExponent.eq_def]
    rcases s with _ | ⟨c, s⟩
    · cases h
    by_cases hplus : c = '+'
    · subst hplus
      rcases s with _ | ⟨c, s⟩
      · cases h
      obtain ⟨hc, hrest⟩ := hdigits h
      simp [hc, hrest]
    by_cases hminus : c = '-'
    · subst hminus
      rcases s with _ | ⟨c, s⟩
      · cases h
      obtain ⟨hc, hrest⟩ := hdigits h
      simp [hc, hrest]
    · simp only [List.cons.injEq, hplus, hminus, false_and, imp_self, implies_true] at h
      obtain ⟨hc, hrest⟩ := hdigits h
      simp [hplus, hminus, hc, hrest]
  next hmark =>
    cases h
    rw [if_neg hmark]
    rfl

/-- What follows a number with a point or an exponent. -/
theorem rest_of_floatOf {negative : Bool} {digits places : Nat} {e : Option Exponent} {n : Number}
    (h : floatOf negative digits places e s = .ok (n, rest)) : rest = afterExponent e s := by
  rcases e with _ | ⟨below, m | _⟩ <;> simp only [floatOf] at h <;> split at h
  all_goals cases h
  all_goals rfl

/-- Passes over the digits after a point, if there is one, and over an exponent. -/
def skipFraction : List Char → Except Fault (List Char)
  | '.' :: t =>
      match t with
      | [] => .error (.here .invalidNumber [])
      | c :: _ =>
          if isDigit c then skipPower (t.dropWhile isDigit) else .error (.next .invalidNumber t)
  | t => skipPower t

theorem skipNumber_of_wholePart {whole : List Char} (h : wholePart s = .ok (whole, t)) :
    skipNumber s = skipFraction t := by
  rcases s with _ | ⟨c, s⟩
  · cases h
  simp only [wholePart] at h
  split at h
  next hzero =>
    subst hzero
    rcases s with _ | ⟨d, s⟩
    · cases h
      rfl
    · dsimp only at h
      split at h
      · cases h
      next hd =>
        cases h
        simp only [skipNumber, if_true, hd]
        rfl
  next hzero =>
    split at h
    next hc =>
      cases h
      simp only [skipNumber, hzero, if_false, hc, if_true]
      rfl
    next => cases h

theorem skipFraction_of_fraction {places : Option (List Char)} (h : fraction s = .ok (places, t)) :
    skipFraction s = skipPower t := by
  unfold fraction at h
  split at h
  next s =>
    rcases s with _ | ⟨c, s⟩
    · cases h
    · dsimp only at h
      split at h
      next hc =>
        cases h
        simp only [skipFraction, hc, if_true]
      next => cases h
  next hpoint =>
    cases h
    rw [skipFraction]
    exact hpoint

theorem length_le_of_skipExponent (h : skipExponent s = .ok rest) : rest.length ≤ s.length := by
  simp only [skipExponent] at h
  split at h
  next => cases h
  next c t hdigits =>
    have hlength : (c :: t).length ≤ s.length := by
      rw [← hdigits]
      split <;> simp
    split at h
    · cases h
      exact (List.length_dropWhile_le ..).trans (Nat.le_of_succ_le hlength)
    · cases h

theorem length_le_of_skipPower (h : skipPower s = .ok rest) : rest.length ≤ s.length := by
  rcases s with _ | ⟨c, s⟩
  · cases h
    exact Nat.le_refl _
  rw [skipPower] at h
  split at h
  · exact Nat.le_succ_of_le (length_le_of_skipExponent h)
  · cases h
    exact Nat.le_refl _

theorem length_le_of_skipFraction (h : skipFraction s = .ok rest) : rest.length ≤ s.length := by
  unfold skipFraction at h
  split at h
  next t =>
    rcases t with _ | ⟨c, t⟩
    · cases h
    dsimp only at h
    split at h
    · exact Nat.le_succ_of_le ((length_le_of_skipPower h).trans (List.length_dropWhile_le ..))
    · cases h
  next => exact length_le_of_skipPower h

theorem length_lt_of_wholePart {whole : List Char} (h : wholePart s = .ok (whole, t)) :
    t.length < s.length := by
  rcases s with _ | ⟨c, s⟩
  · cases h
  simp only [wholePart] at h
  split at h
  · split at h
    · split at h
      · cases h
      · cases h
        exact Nat.lt_succ_self _
    · cases h
      exact Nat.lt_succ_self _
  · split at h
    · cases h
      exact Nat.lt_succ_of_le (List.length_dropWhile_le ..)
    · cases h

/-- A number that can be read can be passed over. -/
theorem skipNumber_of_number {negative : Bool} {n : Number}
    (h : number negative s = .ok (n, rest)) :
    skipNumber s = .ok rest ∧ rest.length < s.length := by
  obtain ⟨⟨whole, s₁⟩, hwhole, h⟩ := exists_of_bind_eq_ok h
  obtain ⟨⟨places, s₂⟩, hplaces, h⟩ := exists_of_bind_eq_ok h
  obtain ⟨⟨e, s₃⟩, hexponent, h⟩ := exists_of_bind_eq_ok h
  have hrest : rest = afterExponent e s₃ := by
    dsimp only at h
    split at h
    · split at h
      · exact (Prod.ext_iff.1 (Except.ok.inj h)).2.symm
      · cases h
    · exact rest_of_floatOf h
  have hskip : skipFraction s₁ = .ok rest := by
    rw [skipFraction_of_fraction hplaces, skipPower_of_exponent hexponent, hrest]
  refine ⟨(skipNumber_of_wholePart hwhole).trans hskip, ?_⟩
  exact Nat.lt_of_le_of_lt (length_le_of_skipFraction hskip) (length_lt_of_wholePart hwhole)

/-! ## Quoted texts -/

theorem skipQuoted_pending (taken s : List Char) :
    skipQuoted taken.length (taken ++ s) = skipQuoted 0 s := by
  induction taken with
  | nil => rfl
  | cons c taken ih => simpa [skipQuoted] using ih

/-- Four digits stand in front of what remains. -/
theorem exists_of_hexUnit {n : Nat} (h : hexUnit s = .ok (n, rest)) :
    ∃ digits, s = digits ++ rest ∧ digits.length = 4 := by
  unfold hexUnit at h
  dsimp only at h
  split at h
  next a b c d after =>
    split at h
    next =>
      cases h
      exact ⟨[a, b, c, d], rfl, rfl⟩
    next => split at h <;> cases h
  next => split at h <;> cases h

theorem skipQuoted_numbered {n : Nat} (h : hexUnit s = .ok (n, rest)) :
    skipQuoted 0 ('\\' :: 'u' :: s) = skipQuoted 0 rest := by
  obtain ⟨digits, rfl, hlength⟩ := exists_of_hexUnit h
  have hescape : skipEscape ('u' :: (digits ++ rest)) = .ok ('u' :: digits).length := by
    rw [List.length_cons, hlength]
    simp [skipEscape, h, bind, Except.bind]
  have hread : skipQuoted 0 ('\\' :: 'u' :: (digits ++ rest)) =
      (skipEscape ('u' :: (digits ++ rest)) >>= fun length =>
        skipQuoted length ('u' :: (digits ++ rest))) := rfl
  rw [hread, hescape]
  exact skipQuoted_pending ('u' :: digits) rest

theorem exists_of_lowSurrogate {low : Nat} (h : lowSurrogate s = .ok low) :
    ∃ t rest, s = '\\' :: 'u' :: t ∧ hexUnit t = .ok (low, rest) := by
  unfold lowSurrogate at h
  split at h
  next => cases h
  next s =>
    dsimp only at h
    split at h
    next => cases h
    next t =>
      obtain ⟨⟨n, rest⟩, hunit, h⟩ := exists_of_bind_eq_ok h
      dsimp only at h
      split at h
      · cases h
        exact ⟨t, rest, rfl, hunit⟩
      · cases h
    next => cases h
  next => cases h

/-- The digits of a numbered escape are four, or two times four with a second escape's mark
between them. -/
theorem exists_of_numberedChar {c : Char} {length : Nat} (h : numberedChar s = .ok (c, length)) :
    ∃ digits rest, s = digits ++ rest ∧ digits.length = length ∧
      skipQuoted 0 ('\\' :: 'u' :: s) = skipQuoted 0 rest := by
  obtain ⟨⟨n, rest⟩, hunit, hchar⟩ := exists_of_bind_eq_ok h
  obtain ⟨digits, rfl, hlength⟩ := exists_of_hexUnit hunit
  have hskip := skipQuoted_numbered hunit
  dsimp only at hchar
  split at hchar
  · cases hchar
  split at hchar
  next =>
    obtain ⟨low, hlow, hchar⟩ := exists_of_bind_eq_ok hchar
    obtain ⟨-, rfl⟩ := Prod.mk.inj (Except.ok.inj hchar)
    obtain ⟨t, rest, rfl, hunit'⟩ := exists_of_lowSurrogate hlow
    obtain ⟨digits', rfl, hlength'⟩ := exists_of_hexUnit hunit'
    refine ⟨digits ++ '\\' :: 'u' :: digits', rest, by simp, by simp [hlength, hlength'], ?_⟩
    rw [hskip, skipQuoted_numbered hunit']
  next =>
    cases hchar
    exact ⟨digits, rest, rfl, hlength, hskip⟩

/-- An escape is passed over by the characters it takes; a pair of surrogates is two escapes. -/
theorem exists_of_escape {c : Char} {length : Nat} (h : escape s = .ok (c, length)) :
    ∃ taken rest, s = taken ++ rest ∧ taken.length = length ∧
      skipQuoted 0 ('\\' :: s) = skipQuoted 0 rest := by
  rcases s with _ | ⟨d, s⟩
  · cases h
  simp only [escape] at h
  split at h
  case h_9 =>
    obtain ⟨⟨c', digits⟩, hnumbered, h⟩ := exists_of_bind_eq_ok h
    cases h
    obtain ⟨digits, rest, rfl, rfl, hskip⟩ := exists_of_numberedChar hnumbered
    exact ⟨'u' :: digits, rest, rfl, rfl, hskip⟩
  case h_10 => cases h
  all_goals
    cases h
    exact ⟨[_], s, rfl, rfl, rfl⟩

/-- A quoted text that can be read can be passed over. -/
theorem skipQuoted_of_quotedChars {cs : List Char} (h : quotedChars 0 s = .ok (cs, rest)) :
    skipQuoted 0 s = .ok rest ∧ rest.length < s.length := by
  -- An escape takes several characters at a time, so the induction is on the length.
  induction hlength : s.length using Nat.strongRecOn generalizing s cs with
  | ind n ih =>
      subst hlength
      rcases s with _ | ⟨c, s⟩
      · cases h
      by_cases hquote : c = '"'
      · subst hquote
        cases h
        exact ⟨rfl, Nat.lt_succ_self _⟩
      by_cases hslash : c = '\\'
      · subst hslash
        obtain ⟨⟨c, length⟩, hescape, h⟩ := exists_of_bind_eq_ok h
        obtain ⟨⟨more, after⟩, hmore, h⟩ := exists_of_bind_eq_ok h
        cases h
        obtain ⟨taken, after, rfl, rfl, hskip⟩ := exists_of_escape hescape
        rw [quotedChars_pending] at hmore
        have hafter : after.length < ('\\' :: (taken ++ after)).length := by
          rw [List.length_cons, List.length_append]
          omega
        obtain ⟨hrest, hshorter⟩ := ih after.length hafter hmore rfl
        rw [hskip]
        exact ⟨hrest, hshorter.trans hafter⟩
      · rw [quotedChars.eq_5 _ _ hquote hslash] at h
        rw [skipQuoted.eq_5 _ _ hquote hslash]
        split at h
        next => cases h
        next hcontrol =>
          obtain ⟨⟨more, after⟩, hmore, h⟩ := exists_of_bind_eq_ok h
          cases h
          rw [if_neg hcontrol]
          obtain ⟨hrest, hshorter⟩ := ih s.length (Nat.lt_succ_self _) hmore rfl
          exact ⟨hrest, Nat.lt_succ_of_lt hshorter⟩

/-! ## The scan -/

theorem length_skipGap_le (s : List Char) : (skipGap s).length ≤ s.length :=
  List.length_dropWhile_le ..

theorem length_lt_of_skipGap {c : Char} (h : skipGap s = c :: t) : t.length < s.length := by
  have hlength := length_skipGap_le s
  rw [h] at hlength
  exact hlength

theorem skipGap_skipGap (s : List Char) : skipGap (skipGap s) = skipGap s :=
  List.dropWhile_eq_self_iff.2 fun hl => List.dropWhile_get_zero_not isGap s hl

theorem skipFrom_value_skipGap (fuel : Nat) (stack : List Bracket) (s : List Char) :
    skipFrom fuel .value stack (skipGap s) = skipFrom fuel .value stack s := by
  cases fuel with
  | zero => rfl
  | succ fuel => rw [skipFrom, skipFrom, skipGap_skipGap]

theorem length_le_of_word {expected : List Char} (h : word expected s = .ok rest) :
    rest.length ≤ s.length := by
  induction expected generalizing s with
  | nil =>
      cases h
      exact Nat.le_refl _
  | cons c more ih =>
      rcases s with _ | ⟨d, s⟩
      · cases h
      rw [word] at h
      split at h
      · exact Nat.le_succ_of_le (ih h)
      · cases h

theorem length_lt_of_colon (h : colon s = .ok rest) : rest.length < s.length := by
  unfold colon at h
  split at h
  next => cases h
  next hgap =>
    cases h
    exact length_lt_of_skipGap hgap
  next => cases h

-- The step into a bracket is paid for by its two characters, and the step to a part by the comma
-- or the bracket in front of it; a part itself leaves one step over.

/-- One value is passed over, inside any brackets, with less than two steps a character. -/
def Passes (s rest : List Char) : Prop :=
  ∃ steps, steps + 1 + 2 * rest.length ≤ 2 * s.length ∧ ∀ fuel stack,
    skipFrom (fuel + steps) .value stack s = skipFrom fuel .after stack rest

/-- Where the scan stands inside a bracket: before the first part, or after one. -/
def entered (first : Bool) : Stage :=
  if first then .opened else .after

/-- What remains of a bracket is passed over, with two steps a character. -/
def Leaves (bracket : Bracket) (first : Bool) (s rest : List Char) : Prop :=
  ∃ steps, steps + 2 * rest.length ≤ 2 * s.length ∧ ∀ fuel stack,
    skipFrom (fuel + steps) (entered first) (bracket :: stack) s = skipFrom fuel .after stack rest

section Scan

variable {bracket : Bracket} {first : Bool} {u : List Char}

theorem Passes.of_step (hlength : rest.length < s.length)
    (hstep : ∀ fuel stack, skipFrom (fuel + 1) .value stack s = skipFrom fuel .after stack rest) :
    Passes s rest :=
  ⟨1, by omega, hstep⟩

theorem Passes.of_bracket (hlength : t.length < s.length)
    (hstep : ∀ fuel stack,
      skipFrom (fuel + 1) .value stack s = skipFrom fuel .opened (bracket :: stack) t)
    (hinside : Leaves bracket true t rest) : Passes s rest := by
  obtain ⟨steps, hsteps, hrun⟩ := hinside
  refine ⟨steps + 1, by omega, fun fuel stack => ?_⟩
  rw [← Nat.add_assoc, hstep]
  exact hrun fuel stack

theorem Leaves.close (hgap : skipGap s = bracket.closer :: rest) : Leaves bracket first s rest := by
  have hlength := length_lt_of_skipGap hgap
  refine ⟨1, by omega, fun fuel stack => ?_⟩
  cases bracket <;> cases first <;> simp [skipFrom, entered, hgap, Bracket.closer]

theorem Leaves.part (hlength : t.length ≤ s.length)
    (hstep : ∀ fuel stack, skipFrom (fuel + 1) (entered first) (bracket :: stack) s =
      skipFrom fuel .value (bracket :: stack) t)
    (hpart : Passes t u) (hmore : Leaves bracket false u rest) : Leaves bracket first s rest := by
  obtain ⟨steps, hsteps, hrun⟩ := hpart
  obtain ⟨steps', hsteps', hrun'⟩ := hmore
  refine ⟨steps' + steps + 1, by omega, fun fuel stack => ?_⟩
  rw [← Nat.add_assoc, hstep, ← Nat.add_assoc, hrun]
  exact hrun' fuel stack

end Scan

/-- The scan inside an array goes from item to item as `nextItem` does. -/
theorem leaves_of_itemsRead {α : Type} {item : List Char → Except Fault (Taken α)} {first : Bool}
    {all : List α} (hitem : ∀ {t a u}, item t = .ok (a, u) → Passes t u)
    (h : ItemsRead item first s all rest) : Leaves .square first s rest := by
  induction h with
  | close hnext =>
      obtain ⟨_, hgap, ⟨⟩⟩ | ⟨_, _, _, _, _, ⟨⟩⟩ | ⟨_, _, _, ⟨⟩⟩ := nextItem_cases hnext
      exact .close hgap
  | part hnext hread _ ih =>
      obtain ⟨_, _, ⟨⟩⟩ | ⟨rfl, c, t, hgap, hclose, ⟨⟩⟩ | ⟨rfl, t, hgap, ⟨⟩⟩ := nextItem_cases hnext
      · refine .part ?_ (fun fuel stack => ?_) (hitem hread) ih
        · exact hgap ▸ length_skipGap_le _
        · simp [skipFrom, entered, hgap, Bracket.closer, hclose, skipKey, bind, Except.bind]
      · refine .part ?_ (fun fuel stack => ?_) (hitem hread) ih
        · exact (length_skipGap_le t).trans (Nat.le_of_lt (length_lt_of_skipGap hgap))
        · rw [skipFrom_value_skipGap]
          simp [skipFrom, entered, hgap, skipKey, bind, Except.bind]

theorem skipQuoted_of_quoted {text : String} (h : quoted s = .ok (text, rest)) :
    skipQuoted 0 s = .ok rest ∧ rest.length < s.length := by
  obtain ⟨⟨cs, t⟩, hchars, h⟩ := exists_of_bind_eq_ok h
  cases h
  exact skipQuoted_of_quotedChars hchars

/-- A key with its colon, with or without white space in front. -/
theorem skipKey_of_quoted {u : List Char} {key : String} (hquote : skipGap s = '"' :: t)
    (hkey : quoted t = .ok (key, u)) (hcolon : colon u = .ok rest) :
    skipKey .curly s = .ok rest ∧ rest.length < s.length := by
  obtain ⟨hskip, hlength⟩ := skipQuoted_of_quoted hkey
  refine ⟨by simp [skipKey, hquote, hskip, hcolon, bind, Except.bind], ?_⟩
  calc rest.length
      < u.length := length_lt_of_colon hcolon
    _ < t.length := hlength
    _ < s.length := length_lt_of_skipGap hquote

/-- The scan inside an object goes from member to member as `nextKey` does. -/
theorem leaves_of_membersRead {α : Type} {value : List Char → Except Fault (Taken α)} {first : Bool}
    {ms : List (String × α)} (hvalue : ∀ {t a u}, value t = .ok (a, u) → Passes t u)
    (h : MembersRead value first s ms rest) : Leaves .curly first s rest := by
  induction h with
  | close hnext =>
      obtain ⟨_, hquote, ⟨⟩⟩ | ⟨_, _, _, _, ⟨⟩⟩ := nextKey_cases hnext
      obtain ⟨_, hgap, ⟨⟩⟩ | ⟨_, _, _, ⟨⟩⟩ | ⟨_, _, _, _, _, ⟨⟩⟩ := nextQuote_cases hquote
      exact .close hgap
  | part hnext hcolon hread _ ih =>
      obtain ⟨_, _, ⟨⟩⟩ | ⟨t, _, hquote, hkey, ⟨⟩⟩ := nextKey_cases hnext
      obtain ⟨_, _, ⟨⟩⟩ | ⟨rfl, _, hgap, ⟨⟩⟩ | ⟨rfl, _, _, hgap, hmark, ⟨⟩⟩ :=
        nextQuote_cases hquote
      · have hopen : skipGap ('"' :: t) = '"' :: t := hgap ▸ skipGap_skipGap _
        obtain ⟨hskip, hlength⟩ := skipKey_of_quoted hopen hkey hcolon
        refine .part ?_ (fun fuel stack => ?_) (hvalue hread) ih
        · exact (Nat.le_of_lt hlength).trans (length_lt_of_skipGap hgap)
        · simp [skipFrom, entered, hgap, Bracket.closer, hskip, bind, Except.bind]
      · obtain ⟨hskip, hlength⟩ := skipKey_of_quoted hmark hkey hcolon
        refine .part ?_ (fun fuel stack => ?_) (hvalue hread) ih
        · exact Nat.le_of_lt (hlength.trans (length_lt_of_skipGap hgap))
        · simp [skipFrom, entered, hgap, hskip, bind, Except.bind]

/-- A value that can be read can be passed over. -/
theorem passes_of_raw {room : Nat} {v : Value} (h : raw room s = .ok (v, rest)) :
    Passes s rest := by
  induction room using Nat.strongRecOn generalizing s v rest with
  | ind room ih =>
      cases rawRead_of_raw h with
      | null hgap hword | true hgap hword | false hgap hword =>
          refine .of_step ((length_le_of_word hword).trans_lt (length_lt_of_skipGap hgap)) ?_
          simp [skipFrom, hgap, hword, bind, Except.bind]
      | string hgap hquoted =>
          obtain ⟨hskip, hlength⟩ := skipQuoted_of_quoted hquoted
          refine .of_step (hlength.trans (length_lt_of_skipGap hgap)) ?_
          simp [skipFrom, hgap, hskip, bind, Except.bind]
      | array hgap hitems =>
          refine .of_bracket (length_lt_of_skipGap hgap) ?_
            (leaves_of_itemsRead (ih _ (Nat.lt_succ_self _)) hitems)
          simp [skipFrom, hgap]
      | object hgap _ hmembers =>
          refine .of_bracket (length_lt_of_skipGap hgap) ?_
            (leaves_of_membersRead (ih _ (Nat.lt_succ_self _)) hmembers)
          simp [skipFrom, hgap]
      | negative hgap hnumber =>
          obtain ⟨hskip, hlength⟩ := skipNumber_of_number hnumber
          refine .of_step (hlength.trans (length_lt_of_skipGap hgap)) ?_
          simp [skipFrom, hgap, hskip, bind, Except.bind]
      | positive hgap hdigit hnumber =>
          obtain ⟨hskip, hlength⟩ := skipNumber_of_number hnumber
          refine .of_step (hlength.trans_le (hgap ▸ length_skipGap_le s)) fun fuel stack => ?_
          rw [skipFrom, hgap]
          split <;> simp_all [isDigit, bind, Except.bind]

/-- The fuel of `skip` lasts: at least one step is left after the value. -/
theorem skip_of_raw {room : Nat} {v : Value} (h : raw room s = .ok (v, rest)) :
    skip s = .ok ((), rest) := by
  obtain ⟨steps, hsteps, hrun⟩ := passes_of_raw h
  have hfuel : 2 * s.length + 2 = (2 * s.length + 1 - steps) + 1 + steps := by omega
  rw [skip, hfuel, hrun]
  rfl

end TypedJson.Reader
