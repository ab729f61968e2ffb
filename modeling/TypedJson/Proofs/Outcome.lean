/-!
# Readings that give a result or are refused for one reason

`GivesIf refusal fits a reading` says that a reading gives `a` when `fits` holds, and
that it is refused with `refusal` when not. Such readings compose: one after the other
fits when both do, and the refusal of either is the refusal of both.
-/

set_option autoImplicit false

namespace TypedJson

variable {α β ε δ : Type}

/-- A reading in two steps that succeeds has succeeded in both. -/
theorem exists_of_bind_eq_ok {reading : Except ε α} {f : α → Except ε β} {b : β}
    (h : reading >>= f = .ok b) : ∃ a, reading = .ok a ∧ f a = .ok b := by
  cases reading with
  | error fault => cases h
  | ok a => exact ⟨a, rfl, h⟩

/-- A reading in two steps that fails still fails when the second step is replaced by one that fails
in the same way. -/
theorem bind_eq_error_of {reading : Except ε α} {f g : α → Except ε β} {e : ε}
    (h : reading >>= f = .error e) (hsecond : ∀ a, f a = .error e → g a = .error e) :
    reading >>= g = .error e := by
  cases reading with
  | error fault => exact h
  | ok a => exact hsecond a h

/-- Renaming the failures of a reading changes no success. -/
theorem mapError_eq_ok_iff {reading : Except ε α} {g : ε → δ} {a : α} :
    reading.mapError g = .ok a ↔ reading = .ok a := by
  constructor
  · intro h
    cases reading with
    | error e => cases h
    | ok b =>
        cases h
        rfl
  · rintro rfl
    rfl

theorem mapError_eq_error_iff {reading : Except ε α} {g : ε → δ} {d : δ} :
    reading.mapError g = .error d ↔ ∃ e, reading = .error e ∧ g e = d := by
  constructor
  · intro h
    cases reading with
    | error e => exact ⟨e, rfl, Except.error.inj h⟩
    | ok b => cases h
  · rintro ⟨e, rfl, rfl⟩
    rfl

/-- The reading gives `a` when it fits; otherwise it is refused, always for the same
reason. -/
structure GivesIf (refusal : ε) (fits : Prop) (a : α) (reading : Except ε α) : Prop where
  ok : fits → reading = .ok a
  refused : ¬ fits → reading = .error refusal

namespace GivesIf

variable {refusal : ε} {p q : Prop} {a : α} {b : β} {reading : Except ε α}

theorem of_ok (h : reading = .ok a) (hp : p) : GivesIf refusal p a reading :=
  ⟨fun _ => h, fun hnot => absurd hp hnot⟩

theorem congr (h : GivesIf refusal p a reading) (hiff : p ↔ q) : GivesIf refusal q a reading :=
  ⟨fun hq => h.ok (hiff.2 hq), fun hq => h.refused fun hp => hq (hiff.1 hp)⟩

/-- A reading that gives something at all fits, and gives nothing else. -/
theorem of_eq_ok {c : α} (h : GivesIf refusal p a reading) (hc : reading = .ok c) :
    p ∧ c = a := by
  by_cases hp : p
  · exact ⟨hp, Except.ok.inj (hc.symm.trans (h.ok hp))⟩
  · rw [h.refused hp] at hc
    cases hc

/-- A reading that is refused does not fit, and is refused for no other reason. -/
theorem of_eq_error {e : ε} (h : GivesIf refusal p a reading) (he : reading = .error e) :
    ¬ p ∧ e = refusal := by
  by_cases hp : p
  · rw [h.ok hp] at he
    cases he
  · exact ⟨hp, Except.error.inj (he.symm.trans (h.refused hp))⟩

/-- One reading after the other fits when both do. -/
theorem bind {f : α → Except ε β} (h : GivesIf refusal p a reading)
    (hf : GivesIf refusal q b (f a)) : GivesIf refusal (p ∧ q) b (reading >>= f) := by
  by_cases hp : p
  · rw [h.ok hp]
    exact hf.congr ⟨fun hq => ⟨hp, hq⟩, fun hpq => hpq.2⟩
  · refine ⟨fun hpq => absurd hpq.1 hp, fun _ => ?_⟩
    rw [h.refused hp]
    rfl

/-- A last step that cannot be refused changes the result only. -/
theorem bind_ok {f : α → Except ε β} (h : GivesIf refusal p a reading) (hf : f a = .ok b) :
    GivesIf refusal p b (reading >>= f) := by
  have hlast : GivesIf refusal True b (f a) := of_ok hf trivial
  exact (h.bind hlast).congr (and_iff_left trivial)

/-- A change of the error changes the refusal. -/
theorem mapError (g : ε → δ) (h : GivesIf refusal p a reading) :
    GivesIf (g refusal) p a (reading.mapError g) := by
  refine ⟨fun hp => ?_, fun hp => ?_⟩
  · rw [h.ok hp]
    rfl
  · rw [h.refused hp]
    rfl

end GivesIf

end TypedJson
