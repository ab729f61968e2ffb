import TypedJson.Proofs.Check.Scoping

/-!
# Environments as one scope

A check asks two things of its environment: what a name means, and, for a name that means
nothing, which names are in force. `Env.Alike` says that two environments answer both in the
same way. A let that is entered on both sides keeps them alike, so no check can tell them apart
(`checkAt_of_alike`).

An environment is alike to the one scope that it is flattened to (`Env.alike_snapshot`):
looking for a name from the innermost scope outwards finds what was written last when the
scopes are written from the outermost inwards. Hence a check gives the same result, failures
included, in the environment and in its one scope (`checkGiven_eq_in_snapshot`).
-/

set_option autoImplicit false

namespace TypedJson

namespace Env

/-- No scope binds a name twice. -/
def Distinct (env : Env) : Prop :=
  ∀ scope ∈ env.scopes, Entries.Distinct scope

instance (env : Env) : Decidable env.Distinct :=
  inferInstanceAs (Decidable (∀ scope ∈ env.scopes, Entries.Distinct scope))

/-! ## The flattened scope -/

theorem distinct_flatten (scopes : List Bindings) : Entries.Distinct (flatten scopes) := by
  induction scopes with
  | nil => exact List.nodup_nil
  | cons scope outer ih => exact ih.insertAll

/-- Flattened scopes bind a name to what the innermost scope that has it says. -/
theorem find?_flatten {scopes : List Bindings} (h : ∀ scope ∈ scopes, Entries.Distinct scope)
    (name : String) : Entries.find? name (flatten scopes) = lookupIn name scopes := by
  induction scopes with
  | nil => rfl
  | cons scope outer ih =>
      obtain ⟨hscope, houter⟩ := List.forall_mem_cons.1 h
      rw [flatten, Entries.find?_insertAll hscope, ih houter, lookupIn]
      cases Entries.find? name scope with
      | none => rfl
      | some meaning => rfl

/-- Flattening a single scope without repeated names changes nothing. -/
theorem snapshot_root {scope : Bindings} (h : Entries.Distinct scope) :
    (root scope).snapshot = scope :=
  Entries.ofList_of_distinct h

/-! ## Environments that a check cannot tell apart -/

/-- Every name means the same, and the same names are in force, in the same order. -/
structure Alike (env env' : Env) : Prop where
  lookup : ∀ name, env.lookup name = env'.lookup name
  snapshot : env.snapshot = env'.snapshot

variable {env env' : Env}

/-- A further scope on both sides keeps two environments alike. -/
theorem Alike.extend (h : env.Alike env') (scope : Bindings) :
    (env.extend scope).Alike (env'.extend scope) where
  lookup := by
    intro name
    change lookupIn name (scope :: env.scopes) = lookupIn name (scope :: env'.scopes)
    -- The new scope is asked first, and what it leaves open the others answer alike.
    rw [lookupIn, lookupIn]
    have houter : lookupIn name env.scopes = lookupIn name env'.scopes := h.lookup name
    rw [houter]
  snapshot := by
    have houter : flatten env.scopes = flatten env'.scopes := h.snapshot
    change Entries.insertAll (flatten env.scopes) scope =
      Entries.insertAll (flatten env'.scopes) scope
    rw [houter]

/-- What a type brings into force keeps two environments alike. -/
theorem Alike.entered (h : env.Alike env') (ty : Ty) :
    (env.entered ty).Alike (env'.entered ty) := by
  cases ty with
  | letIn bindings body note => exact h.extend bindings
  | _ => exact h

/-- An environment is alike to the one scope that it is flattened to. -/
theorem alike_snapshot (h : env.Distinct) : env.Alike (root env.snapshot) where
  lookup := by
    intro name
    have hfind : Entries.find? name env.snapshot = env.lookup name := find?_flatten h name
    change env.lookup name = lookupIn name [env.snapshot]
    rw [lookupIn, hfind]
    cases env.lookup name with
    | none => rfl
    | some meaning => rfl
  snapshot := (snapshot_root (distinct_flatten env.scopes)).symm

end Env

namespace Check

variable {env env' : Env}

/-- No check can tell environments apart that are alike. The induction is on the levels: the
parts of a type are checked in environments that are alike again. -/
theorem checkAt_of_alike (limit : UInt64) (levels : Nat) (h : env.Alike env')
    (term : Option Value) (ty : Ty) :
    checkAt limit levels env term ty = checkAt limit levels env' term ty := by
  induction levels generalizing env env' term ty with
  | zero => rfl
  | succ levels ih =>
      apply level_congr
      · intro name note _
        exact ⟨h.lookup name, h.snapshot⟩
      · intro inside inside' term' ty' hpart hpart'
        apply ih
        rw [hpart.env_eq, hpart'.env_eq]
        exact h.entered ty

/-- Flattening an environment changes no check. In an environment whose scopes bind no name twice,
and in the one scope that it is flattened to, every checker gives the same result: it accepts in
both or fails in both with the same tree of failures, down to the bindings that an unknown name is
reported with. -/
theorem checkGiven_eq_in_snapshot (env : Env) (hdistinct : env.Distinct) (checker : Checker)
    (term : Option Value) (ty : Ty) :
    (∀ room, checker.checkGiven room env term ty =
      checker.checkGiven room (.root env.snapshot) term ty) ∧
    checker.checkIn env term ty = checker.checkIn (.root env.snapshot) term ty := by
  have hgiven : ∀ room, checker.checkGiven room env term ty =
      checker.checkGiven room (.root env.snapshot) term ty := by
    intro room
    rw [Checker.checkGiven_eq_reach, Checker.checkGiven_eq_reach]
    exact checkAt_of_alike _ _ (Env.alike_snapshot hdistinct) term ty
  exact ⟨hgiven, hgiven checker.hasRoom⟩

/-- Three scopes, one of them empty, of which the innermost binds `a` anew. The alternatives fail
for what `a` means and for a name that is unknown inside a further let; its bindings come in the
order in which the names first appear from the outermost scope inwards. -/
theorem checkGiven_eq_in_snapshot_shadowed :
    let int : Ty := .basic .int none
    let text : Ty := .basic .string none
    let flag : Ty := .basic .bool none
    let env : Env := ⟨[[("b", flag), ("a", text)], [], [("a", int), ("c", int)]]⟩
    let ty : Ty := .union
      [.ref "a" none, .letIn [("d", int), ("c", flag)] (.ref "z" none) none] none
    let failure : Failure := .unionExhausted ty (some .null)
      [.mismatch text (some .null),
        .unknownRef "z" [("a", text), ("c", flag), ("b", flag), ("d", int)]]
    env.Distinct ∧ env.snapshot = [("a", text), ("c", int), ("b", flag)] ∧
    Checker.checkIn {} env (some .null) ty = .error failure ∧
    Checker.checkIn {} (.root env.snapshot) (some .null) ty = .error failure := by
  intro int text flag env ty failure
  have hdistinct : env.Distinct := by decide +zetaReduce
  have hsnapshot : env.snapshot = [("a", text), ("c", int), ("b", flag)] := by decide +zetaReduce
  have hfails : Checker.checkIn {} env (some .null) ty = .error failure := by decide +zetaReduce
  refine ⟨hdistinct, hsnapshot, hfails, ?_⟩
  rw [← (checkGiven_eq_in_snapshot env hdistinct {} (some .null) ty).2, hfails]

end Check

end TypedJson
