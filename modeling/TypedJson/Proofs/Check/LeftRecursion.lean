import TypedJson.Proofs.Check.Settling

/-!
# Left recursion is always given up

A check begins with a run of steps that look at nothing of the value: a reference goes to what it
means, a let to its body, and a union to its first alternative. `headStep` is one such step, and a
type is left-recursive in an environment when these steps never end (`HeadEndless`).

One step hands a fatal failure on, whatever comes after it (`level_of_headStep`): later
alternatives of a union are not tried. So a check that takes all its levels at the head is given up
(`checkAt_of_headSteps`), and a left-recursive type is given up for every value at every depth
(`checkGiven_of_headEndless`). The environment may grow at each turn, so that no place is
met twice; an invariant of the steps is what shows that they never end (`HeadEndless.of_invariant`).
-/

set_option autoImplicit false

namespace TypedJson.Check

/-- The check that a check begins with, where it is one of the same value. -/
def headStep : Env × Ty → Option (Env × Ty)
  | (env, .ref name _) => (env.lookup name).map fun meaning => (env, meaning)
  | (env, .letIn bindings body _) => some (env.extend bindings, body)
  | (env, .union (first :: _) _) => some (env, first)
  | _ => none

/-- Where so many steps lead, if there are so many. -/
def headSteps : Nat → Env × Ty → Option (Env × Ty)
  | 0, place => some place
  | n + 1, place => (headStep place).bind (headSteps n)

/-- The type is left-recursive in the environment: the steps at its head never end. -/
def HeadEndless (env : Env) (ty : Ty) : Prop :=
  ∀ n, (headSteps n (env, ty)).isSome = true

variable {inner : Judge} {env env' : Env} {term : Option Value} {ty ty' : Ty}

theorem exists_of_headSteps_succ {n : Nat} {place : Env × Ty}
    (h : (headSteps (n + 1) place).isSome = true) :
    ∃ next, headStep place = some next ∧ (headSteps n next).isSome = true := by
  rw [headSteps] at h
  cases hstep : headStep place with
  | none =>
      rw [hstep] at h
      cases h
  | some next =>
      rw [hstep] at h
      exact ⟨next, rfl, h⟩

/-- Steps never end where each of them leads to a place that the invariant holds of. -/
theorem HeadEndless.of_invariant (Inv : Env → Ty → Prop)
    (hstep : ∀ env ty, Inv env ty →
      ∃ env' ty', headStep (env, ty) = some (env', ty') ∧ Inv env' ty')
    (h : Inv env ty) : HeadEndless env ty := by
  intro n
  induction n generalizing env ty with
  | zero => rfl
  | succ n ih =>
      obtain ⟨env', ty', hnext, hinv⟩ := hstep env ty h
      rw [headSteps, hnext]
      exact ih hinv

/-- A fatal failure at the head is the failure of the level. One case for each kind of step; a union
does not go on to its other alternatives. -/
theorem level_of_headStep {failure : Failure} (hstep : headStep (env, ty) = some (env', ty'))
    (hfatal : failure.isFatal = true) (h : inner env' term ty' = .error failure) :
    level inner env term ty = .error failure := by
  cases ty with
  | ref name note =>
      rw [headStep] at hstep
      obtain ⟨meaning, hname, hnext⟩ := Option.map_eq_some_iff.1 hstep
      cases hnext
      simp only [level, hname]
      exact h
  | letIn bindings body note =>
      cases hstep
      exact h
  | union alts note =>
      cases alts with
      | nil => cases hstep
      | cons first rest =>
          cases hstep
          have hstopped : tryEach (fun alt => inner env term alt) (ty' :: rest) =
              .stopped failure := by
            simp only [tryEach, h, hfatal, if_true]
          simp only [level, hstopped]
  | _ => cases hstep

/-- A check that takes all its levels at the head is given up. The induction is on the levels,
one for each step. -/
theorem checkAt_of_headSteps (limit : UInt64) {levels : Nat}
    (h : (headSteps levels (env, ty)).isSome = true) (term : Option Value) :
    checkAt limit levels env term ty = .error (.recursionLimit limit) := by
  induction levels generalizing env ty with
  | zero => rfl
  | succ levels ih =>
      obtain ⟨⟨env', ty'⟩, hstep, hrest⟩ := exists_of_headSteps_succ h
      exact level_of_headStep hstep rfl (ih hrest)

/-- A left-recursive type is given up for every value, present or missing, at every depth. The limit
that is reported is that of the checker, not that of its first try, and no later alternative of a
union is looked at, even one that would accept the value. Beyond the depth of the first try this
takes a work area. -/
theorem checkGiven_of_headEndless (h : HeadEndless env ty) (term : Option Value)
    (checker : Checker) (room : Bool) (hroom : Checker.shallow < checker.maxDepth → room = true) :
    checker.checkGiven room env term ty = .error (.recursionLimit checker.maxDepth) := by
  rw [Checker.checkGiven_of_room hroom]
  exact checkAt_of_headSteps checker.maxDepth (h _) term

/-- Each turn of this loop binds a name anew, so that the environment grows without end. The number
is taken by the second alternative, which is never reached: neither by the default checker, nor by
one that goes deeper, nor by a shallow one without a work area. -/
theorem checkGiven_of_headEndless_growing :
    let int : Ty := .basic .int none
    let loop : Ty := .union [.letIn [("x", int)] (.ref "loop" none) none, int] none
    let env : Env := .root [("loop", loop)]
    let one : Option Value := some (.number (.ofUInt64 1))
    HeadEndless env (.ref "loop" none) ∧ Checker.checkGiven true {} env one int = .ok () ∧
    Checker.checkGiven true {} env one (.ref "loop" none) = .error (.recursionLimit 512) ∧
    Checker.checkGiven true ⟨4096⟩ env none (.ref "loop" none) = .error (.recursionLimit 4096) ∧
    Checker.checkGiven false ⟨16⟩ env one (.ref "loop" none) = .error (.recursionLimit 16) := by
  intro int loop env one
  have hendless : HeadEndless env (.ref "loop" none) := by
    -- At each place the name still means the loop, and the type is one of its three parts.
    apply HeadEndless.of_invariant fun env ty => env.lookup "loop" = some loop ∧
      (ty = .ref "loop" none ∨ ty = loop ∨ ty = .letIn [("x", int)] (.ref "loop" none) none)
    · rintro env ty ⟨hname, rfl | rfl | rfl⟩
      · exact ⟨env, loop, by rw [headStep, hname]; rfl, hname, Or.inr (Or.inl rfl)⟩
      · exact ⟨env, _, rfl, hname, Or.inr (Or.inr rfl)⟩
      · exact ⟨env.extend [("x", int)], _, rfl, hname, Or.inl rfl⟩
    · exact ⟨rfl, Or.inl rfl⟩
  refine ⟨hendless, by decide +zetaReduce, ?_, ?_, ?_⟩
  · exact checkGiven_of_headEndless hendless one {} true fun _ => rfl
  · exact checkGiven_of_headEndless hendless none ⟨4096⟩ true fun _ => rfl
  · exact checkGiven_of_headEndless hendless one ⟨16⟩ false (by decide)

end TypedJson.Check
