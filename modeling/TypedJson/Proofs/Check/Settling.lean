import Mathlib.Logic.Function.Iterate
import TypedJson.Proofs.Check.Conformance

/-!
# Levels that are enough

`SettlesIn levels env term ty` says that a check with so many levels is not given up,
whatever its verdict. A check settles one level above all that it consults
(`SettlesIn.of_consults`), so that bounds are found form by form, from the inside out.

A check with enough levels accepts what conforms (`SettlesIn.checkAt_eq_ok`), and so
does a checker that goes deep enough and has room for it. That what a checker accepts
conforms needs no such condition.
-/

set_option autoImplicit false

namespace TypedJson.Check

/-- So many levels are enough for a verdict. -/
def SettlesIn (levels : Nat) (env : Env) (term : Option Value) (ty : Ty) : Prop :=
  ∀ limit, Settled (checkAt limit levels env term ty)

namespace SettlesIn

variable {levels : Nat} {env : Env} {term : Option Value} {ty : Ty} {note : Option Value}

theorem mono {levels' : Nat} (h : SettlesIn levels env term ty) (hle : levels ≤ levels') :
    SettlesIn levels' env term ty := by
  intro limit
  rw [checkAt_of_settled limit limit hle env term ty (h limit)]
  exact h limit

/-- No verdict comes without a level. -/
theorem exists_succ (h : SettlesIn levels env term ty) : ∃ fewer, levels = fewer + 1 := by
  cases levels with
  | zero => cases h 0
  | succ fewer => exact ⟨fewer, rfl⟩

/-- One level above all that is consulted is enough. -/
theorem of_consults
    (h : ∀ env' term' ty', Consults env term ty env' term' ty' →
      SettlesIn levels env' term' ty') : SettlesIn (levels + 1) env term ty := by
  intro limit
  by_contra hgaveUp
  obtain ⟨depth, hdepth⟩ := (not_settled_iff _).1 hgaveUp
  -- The level does not give up by itself, so a part that it consults does.
  rcases level_eq_error hdepth with hown | ⟨env', term', ty', hconsults, hpart⟩
  · cases hown
  · have hsettled := h env' term' ty' hconsults limit
    rw [hpart] at hsettled
    cases hsettled

/-! ## The forms -/

theorem basic (sub : Basic) : SettlesIn (levels + 1) env term (.basic sub note) := by
  apply of_consults
  intro env' term' ty' hconsults
  cases hconsults

theorem literal (expected : Value) : SettlesIn (levels + 1) env term (.literal expected note) := by
  apply of_consults
  intro env' term' ty' hconsults
  cases hconsults

theorem ref {name : String} {meaning : Ty} (hname : env.lookup name = some meaning)
    (h : SettlesIn levels env term meaning) : SettlesIn (levels + 1) env term (.ref name note) := by
  apply of_consults
  intro env' term' ty' hconsults
  cases hconsults with
  | ref hfound =>
      cases hname.symm.trans hfound
      exact h

theorem letIn {bindings : Bindings} {body : Ty}
    (h : SettlesIn levels (env.extend bindings) term body) :
    SettlesIn (levels + 1) env term (.letIn bindings body note) := by
  apply of_consults
  intro env' term' ty' hconsults
  cases hconsults with
  | letIn => exact h

theorem union {alts : List Ty} (h : ∀ alt ∈ alts, SettlesIn levels env term alt) :
    SettlesIn (levels + 1) env term (.union alts note) := by
  apply of_consults
  intro env' term' ty' hconsults
  cases hconsults with
  | union hmem => exact h _ hmem

theorem struct {fields : List (String × Ty)}
    (h : ∀ members, term = some (.object members) → ∀ field ∈ fields,
      SettlesIn levels env (Entries.find? field.1 members) field.2) :
    SettlesIn (levels + 1) env term (.struct fields note) := by
  apply of_consults
  intro env' term' ty' hconsults
  cases hconsults with
  | field hterm hmem => exact h _ hterm _ hmem

theorem map {key value : Ty}
    (h : ∀ members, term = some (.object members) → ∀ member ∈ members,
      SettlesIn levels env (some (.string member.1)) key ∧
        SettlesIn levels env (some member.2) value) :
    SettlesIn (levels + 1) env term (.map key value note) := by
  apply of_consults
  intro env' term' ty' hconsults
  cases hconsults with
  | key hterm hmem => exact (h _ hterm _ hmem).1
  | member hterm hmem => exact (h _ hterm _ hmem).2

theorem list {item : Ty}
    (h : ∀ items, term = some (.array items) → ∀ v ∈ items, SettlesIn levels env (some v) item) :
    SettlesIn (levels + 1) env term (.list item note) := by
  apply of_consults
  intro env' term' ty' hconsults
  cases hconsults with
  | item hterm hmem => exact h _ hterm _ hmem

/-! ## Enough levels -/

/-- Below the levels that are enough, nothing is looked at: the result is the same whatever
judge stands there. The induction is on the levels; with none of them nothing settles. -/
theorem iterate_level (h : SettlesIn levels env term ty) (below : Judge) (limit : UInt64) :
    level^[levels] below env term ty = checkAt limit levels env term ty := by
  have hext : ∀ n, Extends (level^[n] below) (checkAt limit n) := by
    intro n
    induction n with
    | zero =>
        intro env term ty hsettled
        cases hsettled
    | succ n ih =>
        rw [Function.iterate_succ_apply']
        exact level_of_settled ih
  exact hext levels env term ty (h limit)

/-- With enough levels, what conforms is accepted. -/
theorem checkAt_eq_ok (h : SettlesIn levels env term ty) (hconforms : Conforms env term ty)
    (limit : UInt64) : checkAt limit levels env term ty = .ok () :=
  hconforms.checkAt_eq_ok (h limit)

end SettlesIn

end TypedJson.Check

namespace TypedJson.Checker

open Check

variable {checker : Checker} {room : Bool} {env : Env} {term : Option Value} {ty : Ty}

/-- Within the first try, or with room for more, a check is the single run with all
levels. -/
theorem checkGiven_of_room (hroom : shallow < checker.maxDepth → room = true) :
    checker.checkGiven room env term ty = upTo checker.maxDepth env term ty := by
  by_cases hlt : shallow < checker.maxDepth
  · rw [hroom hlt, checkGiven_true]
  · rw [checkGiven_eq_reach, reach_of_le room (by simpa using hlt)]

/-- A checker that goes deep enough accepts what conforms, if there is room for checks
beyond the first try. -/
theorem checkGiven_of_conforms (hroom : shallow < checker.maxDepth → room = true)
    (hsettles : SettlesIn (checker.maxDepth.toNat + 1) env term ty)
    (hconforms : Conforms env term ty) : checker.checkGiven room env term ty = .ok () := by
  rw [checkGiven_of_room hroom]
  exact hsettles.checkAt_eq_ok hconforms checker.maxDepth

/-- What a checker accepts conforms, with room for more levels or without. -/
theorem conforms_of_checkGiven (h : checker.checkGiven room env term ty = .ok ()) :
    Conforms env term ty := by
  rw [checkGiven_eq_reach] at h
  exact checkAt_sound _ _ env term ty h

/-- A checker that does not give up accepts exactly what conforms. -/
theorem checkGiven_eq_ok_iff (hsettled : Settled (checker.checkGiven room env term ty)) :
    checker.checkGiven room env term ty = .ok () ↔ Conforms env term ty := by
  refine ⟨conforms_of_checkGiven, fun hconforms => ?_⟩
  rw [checkGiven_eq_reach] at hsettled ⊢
  exact hconforms.checkAt_eq_ok hsettled

end TypedJson.Checker
