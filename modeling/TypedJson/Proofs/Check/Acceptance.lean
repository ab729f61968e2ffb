import TypedJson.Proofs.Check.Levels

/-!
# Levels that accept

What a level accepts is said form by form, through what its parts accept. For structs, maps and
lists this is an equivalence. A union takes an alternative that accepts and, since a fatal failure
ends the trial, alternatives that are all settled (`level_union_eq_ok`). An acceptance takes a
level at least (`exists_of_checkAt_eq_ok`), so the number of levels is taken apart along with the
type.
-/

set_option autoImplicit false

namespace TypedJson.Check

variable {inner : Judge} {env : Env} {term : Option Value} {note : Option Value}

/-- What is accepted takes a level. -/
theorem exists_of_checkAt_eq_ok {limit : UInt64} {levels : Nat} {ty : Ty}
    (h : checkAt limit levels env term ty = .ok ()) :
    ∃ fewer, levels = fewer + 1 ∧ level (checkAt limit fewer) env term ty = .ok () := by
  cases levels with
  | zero => cases h
  | succ fewer => exact ⟨fewer, rfl, h⟩

theorem level_ref {name : String} {meaning : Ty} (hname : env.lookup name = some meaning) :
    level inner env term (.ref name note) = inner env term meaning := by
  simp only [level, hname]

theorem level_struct_eq_ok_iff {fields : List (String × Ty)} :
    level inner env term (.struct fields note) = .ok () ↔ ∃ members, term = some (.object members) ∧
      ∀ field ∈ fields, inner env (Entries.find? field.1 members) field.2 = .ok () := by
  constructor
  · intro h
    simp only [level] at h
    split at h
    · next members => exact ⟨members, rfl, (every_eq_ok_iff _ _).1 h⟩
    · cases h
  · rintro ⟨members, rfl, h⟩
    exact (every_eq_ok_iff _ _).2 h

theorem level_map_eq_ok_iff {key value : Ty} :
    level inner env term (.map key value note) = .ok () ↔
      ∃ members, term = some (.object members) ∧ ∀ member ∈ members,
        inner env (some (.string member.1)) key = .ok () ∧
          inner env (some member.2) value = .ok () := by
  simp only [← memberCheck_eq_ok_iff]
  constructor
  · intro h
    simp only [level] at h
    split at h
    · next members => exact ⟨members, rfl, (every_eq_ok_iff _ _).1 h⟩
    · cases h
  · rintro ⟨members, rfl, h⟩
    exact (every_eq_ok_iff _ _).2 h

theorem level_list_eq_ok_iff {item : Ty} :
    level inner env term (.list item note) = .ok () ↔
      ∃ items, term = some (.array items) ∧ ∀ v ∈ items, inner env (some v) item = .ok () := by
  constructor
  · intro h
    simp only [level] at h
    split at h
    · next items => exact ⟨items, rfl, (every_eq_ok_iff _ _).1 h⟩
    · cases h
  · rintro ⟨items, rfl, h⟩
    exact (every_eq_ok_iff _ _).2 h

/-- A union accepts by an alternative that does, unless an earlier one is given up. -/
theorem level_union_eq_ok {alts : List Ty} {alt : Ty} (hmem : alt ∈ alts)
    (halt : inner env term alt = .ok ()) (h : ∀ alt ∈ alts, Settled (inner env term alt)) :
    level inner env term (.union alts note) = .ok () := by
  simp only [level]
  split
  · rfl
  · next hstop =>
      obtain ⟨other, hother, hfails, hfatal⟩ := exists_of_tryEach_eq_stopped hstop
      have hsettled := h other hother
      rw [hfails, settled_error, hfatal] at hsettled
      cases hsettled
  · next hexhausted =>
      -- An exhausted trial has a failure for each alternative, and so for the accepting one.
      obtain ⟨failure, -, hfails, -⟩ := exists_right_of_forall₂
        ((tryEach_eq_exhausted_iff _ _ _).1 hexhausted) hmem
      rw [halt] at hfails
      cases hfails

end TypedJson.Check
