import TypedJson.Proofs.Reader.Container

/-!
# The characters in the texts of values

No control character stands in the compact text of a value: quoted texts escape them, and the
texts of numbers have digits, signs, points and exponent marks only (`Value.plain_compact`). The
first character is a visible one (`Value.exists_visible_compact`). So a compact text is one line,
and it is not blank.
-/

set_option autoImplicit false

namespace TypedJson

theorem Reader.toNat_of_isDigit {c : Char} (h : isDigit c = true) :
    48 ≤ c.toNat ∧ c.toNat ≤ 57 := by
  simp only [isDigit, Bool.and_eq_true, decide_eq_true_eq] at h
  exact h

/-! ## Numbers -/

namespace Number

/-- The characters that the texts of numbers are made of. -/
def IsMark (c : Char) : Prop :=
  Reader.isDigit c = true ∨ c ∈ ['-', '+', '.', 'e']

variable {c : Char}

theorem IsMark.le_toNat (h : IsMark c) : 32 ≤ c.toNat := by
  rcases h with hdigit | hmark
  · have := (Reader.toNat_of_isDigit hdigit).1
    omega
  · simp only [List.mem_cons, List.not_mem_nil, or_false] at hmark
    rcases hmark with rfl | rfl | rfl | rfl <;> decide

theorem isMark_of_mem_toDigits {n : Nat} (h : c ∈ Nat.toDigits 10 n) : IsMark c :=
  Or.inl (Reader.isDigit_of_mem_toDigits h)

theorem isMark_of_mem_zeros {k : Nat} (h : c ∈ Decimal.zeros k) : IsMark c :=
  Or.inl (Reader.isDigit_of_mem_zeros h)

variable {ds : List Char} (hds : ∀ d ∈ ds, IsMark d)

include hds

theorem isMark_of_mem_positional {exponent : Int} (h : c ∈ Decimal.positional ds exponent) :
    IsMark c := by
  have hpoint : IsMark '.' := Or.inr (by decide)
  have hzero : IsMark '0' := Or.inl rfl
  simp only [Decimal.positional] at h
  -- Behind the digits, among them, or in front of them stands the point.
  split at h
  · simp only [List.mem_append, List.mem_cons, List.not_mem_nil, or_false] at h
    rcases h with (h | h) | rfl | rfl
    · exact hds c h
    · exact isMark_of_mem_zeros h
    · exact hpoint
    · exact hzero
  · split at h
    · simp only [List.mem_append, List.mem_cons] at h
      rcases h with h | rfl | h
      · exact hds c (List.mem_of_mem_take h)
      · exact hpoint
      · exact hds c (List.mem_of_mem_drop h)
    · simp only [List.mem_append, List.mem_cons] at h
      rcases h with rfl | rfl | h | h
      · exact hzero
      · exact hpoint
      · exact isMark_of_mem_zeros h
      · exact hds c h

theorem isMark_of_mem_scientific {power : Int} (h : c ∈ Decimal.scientific ds power) :
    IsMark c := by
  simp only [Decimal.scientific, List.mem_append, List.mem_cons] at h
  rcases h with (h | h) | rfl | rfl | h
  · exact hds c (List.mem_of_mem_take h)
  · split at h
    · cases h
    · rcases List.mem_cons.1 h with rfl | h
      · exact Or.inr (by decide)
      · exact hds c (List.mem_of_mem_drop h)
  · exact Or.inr (by decide)
  · split <;> exact Or.inr (by decide)
  · exact isMark_of_mem_toDigits h

omit hds

theorem isMark_of_mem_text {n : Number} (h : c ∈ n.text) : IsMark c := by
  have hmagnitude : c ∈ n.magnitudeText → IsMark c := by
    intro h
    cases n with
    | int n fits => exact isMark_of_mem_toDigits h
    | float x =>
        simp only [magnitudeText] at h
        split at h
        · revert h
          simp only [List.mem_cons, List.not_mem_nil, or_false]
          rintro (rfl | rfl | rfl)
          · exact Or.inl rfl
          · exact Or.inr (by decide)
          · exact Or.inl rfl
        · simp only [Decimal.layout] at h
          split at h
          · exact isMark_of_mem_positional (fun d => isMark_of_mem_toDigits) h
          · exact isMark_of_mem_scientific (fun d => isMark_of_mem_toDigits) h
  rw [text_eq] at h
  split at h
  · rcases List.mem_cons.1 h with rfl | h
    · exact Or.inr (by decide)
    · exact hmagnitude h
  · exact hmagnitude h

end Number

/-! ## Values -/

/-- There is no control character in the text. -/
def Text.Plain (s : List Char) : Prop :=
  ∀ c ∈ s, 32 ≤ c.toNat

namespace Value

open Text

theorem le_toNat_hexDigit {n : Nat} (h : n < 16) : 32 ≤ (hexDigit n).toNat := by
  revert n
  decide

theorem plain_escaped (c : Char) : Plain (escaped c) := by
  unfold escaped
  split
  case h_8 =>
    split
    case isTrue hcontrol =>
      have hhigh := le_toNat_hexDigit (n := c.toNat / 16) (by omega)
      have hlow := le_toNat_hexDigit (n := c.toNat % 16) (by omega)
      simpa [Plain] using ⟨hhigh, hlow⟩
    case isFalse hplain => simpa [Plain] using hplain
  all_goals
    exact List.forall_mem_cons.2 ⟨by decide, List.forall_mem_singleton.2 (by decide)⟩

variable {after : List Char}

theorem plain_cons {c : Char} {s : List Char} : Plain (c :: s) ↔ 32 ≤ c.toNat ∧ Plain s :=
  List.forall_mem_cons

theorem plain_writeString (s : String) (h : Plain after) : Plain (writeString s after) := by
  have hchars : ∀ cs, Plain (writeChars cs after) := by
    intro cs
    induction cs with
    | nil => exact plain_cons.2 ⟨by decide, h⟩
    | cons c cs ih => exact List.forall_mem_append.2 ⟨plain_escaped c, ih⟩
  exact plain_cons.2 ⟨by decide, hchars s.toList⟩

theorem plain_writeMember (name : String) {v : Value} (h : Plain (v.write after)) :
    Plain (writeString name (':' :: v.write after)) :=
  plain_writeString name (plain_cons.2 ⟨by decide, h⟩)

theorem plain_writeItems {vs : List Value}
    (hwrite : ∀ v ∈ vs, ∀ after, Plain after → Plain (v.write after)) (h : Plain after) :
    Plain (writeItems vs after) := by
  induction vs with
  | nil => exact plain_cons.2 ⟨by decide, h⟩
  | cons v vs ih =>
      obtain ⟨hv, hvs⟩ := List.forall_mem_cons.1 hwrite
      exact plain_cons.2 ⟨by decide, hv _ (ih hvs)⟩

theorem plain_writeMembers {ms : List (String × Value)}
    (hwrite : ∀ member ∈ ms, ∀ after, Plain after → Plain (member.2.write after))
    (h : Plain after) : Plain (writeMembers ms after) := by
  induction ms with
  | nil => exact plain_cons.2 ⟨by decide, h⟩
  | cons member ms ih =>
      obtain ⟨hv, hms⟩ := List.forall_mem_cons.1 hwrite
      exact plain_cons.2 ⟨by decide, plain_writeMember member.1 (hv _ (ih hms))⟩

/-- The text of a value brings in no control characters. -/
theorem plain_write (v : Value) (h : Plain after) : Plain (v.write after) := by
  induction v using Value.induction generalizing after with
  | null => simpa [write, plain_cons] using h
  | bool b => cases b <;> simpa [write, plain_cons] using h
  | number n =>
      exact List.forall_mem_append.2 ⟨fun c hc => (Number.isMark_of_mem_text hc).le_toNat, h⟩
  | string s => exact plain_writeString s h
  | array items ih =>
      cases items with
      | nil => simpa [write, plain_cons] using h
      | cons v rest =>
          obtain ⟨hv, hrest⟩ := List.forall_mem_cons.1 ih
          have hitems := plain_writeItems (fun u hu after hafter => hrest u hu hafter) h
          exact plain_cons.2 ⟨by decide, hv hitems⟩
  | object members ih =>
      cases members with
      | nil => simpa [write, plain_cons] using h
      | cons member rest =>
          obtain ⟨hv, hrest⟩ := List.forall_mem_cons.1 ih
          have hmembers := plain_writeMembers (fun u hu after hafter => hrest u hu hafter) h
          exact plain_cons.2 ⟨by decide, plain_writeMember member.1 (hv hmembers)⟩

/-- A compact text has no control characters. -/
theorem plain_compact (v : Value) : Plain v.compact.toList := by
  rw [compact, String.toList_ofList]
  exact v.plain_write (List.forall_mem_nil _)

/-- A compact text starts with a visible character. -/
theorem exists_visible_compact (v : Value) :
    ∃ c t, v.compact.toList = c :: t ∧ 32 < c.toNat ∧ c.toNat < 127 := by
  rw [compact, String.toList_ofList]
  cases v with
  | null => exact ⟨_, _, rfl, by decide⟩
  | bool b => cases b <;> exact ⟨_, _, rfl, by decide⟩
  | number n =>
      obtain ⟨c, t, htext, hc⟩ := Reader.magnitudeText_eq_cons n
      have hrange := Reader.toNat_of_isDigit hc
      rw [write, List.append_nil, Number.text_eq, htext]
      split
      · exact ⟨_, _, rfl, by decide⟩
      · exact ⟨_, _, rfl, by omega, by omega⟩
  | string s => exact ⟨_, _, rfl, by decide⟩
  | array items => cases items <;> exact ⟨_, _, rfl, by decide⟩
  | object members => cases members <;> exact ⟨_, _, rfl, by decide⟩

end Value

end TypedJson
