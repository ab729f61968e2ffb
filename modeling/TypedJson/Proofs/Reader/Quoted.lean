import TypedJson.Reader.Scalar
import TypedJson.Value.Printer

/-!
# Quoted texts read back

A quoted text is written character by character, and so it reads back character by
character: `quotedChars_escaped` is the step, `quotedChars_writeChars` the run. What
follows the closing quote is left as it is, whatever it is.
-/

set_option autoImplicit false

namespace TypedJson.Reader

variable {c : Char} {cs s rest : List Char}

/-! ## Numbered escapes -/

theorem hexValue?_hexDigit {n : Nat} (h : n < 16) : hexValue? (Value.hexDigit n) = some n := by
  revert n
  decide

/-- The four digits that a control character is written with. -/
theorem hexUnit_control {n : Nat} (h : n < 256) (s : List Char) :
    hexUnit ('0' :: '0' :: Value.hexDigit (n / 16) :: Value.hexDigit (n % 16) :: s) =
      .ok (n, s) := by
  have hhigh : hexValue? (Value.hexDigit (n / 16)) = some (n / 16) := hexValue?_hexDigit (by omega)
  have hlow : hexValue? (Value.hexDigit (n % 16)) = some (n % 16) := hexValue?_hexDigit (by omega)
  have hzero : hexValue? '0' = some 0 := rfl
  have hsum : ((0 * 16 + 0) * 16 + n / 16) * 16 + n % 16 = n := by omega
  simp only [hexUnit, hzero, hhigh, hlow, hsum]

/-- A control character is below the surrogates, so that its number alone stands for it. -/
theorem numberedChar_control (hc : c.toNat < 32) (s : List Char) :
    numberedChar ('0' :: '0' :: Value.hexDigit (c.toNat / 16) ::
      Value.hexDigit (c.toNat % 16) :: s) = .ok (c, 4) := by
  have hunit := hexUnit_control (n := c.toNat) (by omega) s
  have hlow : isLowSurrogate c.toNat = false := by
    simp only [isLowSurrogate, Bool.and_eq_false_iff, decide_eq_false_iff_not]
    omega
  have hhigh : isHighSurrogate c.toNat = false := by
    simp only [isHighSurrogate, Bool.and_eq_false_iff, decide_eq_false_iff_not]
    omega
  simp [numberedChar, hunit, hlow, hhigh, bind, Except.bind]

/-! ## From one character to a text -/

theorem quotedChars_pending (taken s : List Char) :
    quotedChars taken.length (taken ++ s) = quotedChars 0 s := by
  induction taken with
  | nil => rfl
  | cons c taken ih => simpa [quotedChars] using ih

/-- An escape is read once, and its characters are then passed over. -/
theorem quotedChars_escape (taken : List Char)
    (hescape : escape (taken ++ s) = .ok (c, taken.length))
    (hs : quotedChars 0 s = .ok (cs, rest)) :
    quotedChars 0 ('\\' :: (taken ++ s)) = .ok (c :: cs, rest) := by
  simp [quotedChars, hescape, quotedChars_pending, hs, bind, Except.bind]

theorem quotedChars_plain (hquote : c ≠ '"') (hslash : c ≠ '\\') (hc : ¬ c.toNat < 32)
    (hs : quotedChars 0 s = .ok (cs, rest)) : quotedChars 0 (c :: s) = .ok (c :: cs, rest) := by
  rw [quotedChars.eq_5 _ _ hquote hslash]
  simp [hc, hs, bind, Except.bind]

/-- One character, as it is written, is read as that character. -/
theorem quotedChars_escaped (c : Char) (hs : quotedChars 0 s = .ok (cs, rest)) :
    quotedChars 0 (Value.escaped c ++ s) = .ok (c :: cs, rest) := by
  unfold Value.escaped
  -- Seven characters have a short escape; other controls go by number, all else is plain.
  split
  case h_1 => exact quotedChars_escape ['"'] rfl hs
  case h_2 => exact quotedChars_escape ['\\'] rfl hs
  case h_3 => exact quotedChars_escape ['b'] rfl hs
  case h_4 => exact quotedChars_escape ['f'] rfl hs
  case h_5 => exact quotedChars_escape ['n'] rfl hs
  case h_6 => exact quotedChars_escape ['r'] rfl hs
  case h_7 => exact quotedChars_escape ['t'] rfl hs
  case h_8 hquote hslash _ _ _ _ _ =>
    split
    case isTrue hc =>
      refine quotedChars_escape ['u', '0', '0', _, _] ?_ hs
      simp [escape, numberedChar_control hc, bind, Except.bind]
    case isFalse hc => exact quotedChars_plain hquote hslash hc hs

/-- The characters of a quoted text read back up to the closing quote. -/
theorem quotedChars_writeChars (cs after : List Char) :
    quotedChars 0 (Value.writeChars cs after) = .ok (cs, after) := by
  induction cs with
  | nil => rfl
  | cons c cs ih => exact quotedChars_escaped c ih

theorem quoted_writeChars (text : String) (after : List Char) :
    quoted (Value.writeChars text.toList after) = .ok (text, after) := by
  simp [quoted, quotedChars_writeChars, bind, Except.bind]

end TypedJson.Reader
