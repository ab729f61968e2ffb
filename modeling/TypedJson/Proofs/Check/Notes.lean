import TypedJson.Proofs.Check.Levels
import TypedJson.Proofs.Failure
import TypedJson.Proofs.Type

/-!
# Notes never affect a check

Every term of a type may carry a note. `Ty.bare` takes all notes off a type, those of its
bindings included, but leaves literals as they are: what stands in a literal is data. Types and
environments that are the same once they are bare differ in their notes only.

Taking the notes off commutes with everything that a check does: with looking up a name, with
entering a let, with flattening the scopes for a report, and so with one level (`level_bare`) and
with a whole check (`checkAt_bare`). The failures of a check carry types, so their notes are
taken off as well (`Failure.bare`); no printed text shows a note (`Failure.render_bare`).
-/

set_option autoImplicit false

namespace TypedJson

/-! ## Types without notes -/

namespace Ty

mutual

/-- The type without its notes. -/
def bare : Ty → Ty
  | .basic sub _ => .basic sub none
  | .literal value _ => .literal value none
  | .union alts _ => .union (bareIn alts) none
  | .struct fields _ => .struct (bareNamed fields) none
  | .map key value _ => .map (bare key) (bare value) none
  | .list item _ => .list (bare item) none
  | .tuple items _ => .tuple (bareIn items) none
  | .letIn bindings body _ => .letIn (bareNamed bindings) (bare body) none
  | .ref name _ => .ref name none

/-- `bare` on every type of a list. -/
def bareIn : List Ty → List Ty
  | [] => []
  | t :: rest => bare t :: bareIn rest

/-- `bare` on every named type. -/
def bareNamed : List (String × Ty) → List (String × Ty)
  | [] => []
  | (name, t) :: rest => (name, bare t) :: bareNamed rest

end

theorem bareIn_eq_map (ts : List Ty) : bareIn ts = ts.map bare := by
  induction ts with
  | nil => rfl
  | cons t rest ih => rw [bareIn, ih, List.map_cons]

theorem bareNamed_eq_mapped (named : Bindings) : bareNamed named = Entries.mapped bare named := by
  induction named with
  | nil => rfl
  | cons entry rest ih => rw [bareNamed, ih, Entries.mapped_cons]

/-- A type with another note is the same without it. -/
@[simp]
theorem bare_withNote (note : Option Value) (t : Ty) : (t.withNote note).bare = t.bare := by
  cases t <;> rfl

/-- Messages do not show notes. -/
theorem display_bare (t : Ty) : t.bare.display = t.display := by
  induction t using Ty.induction with
  | basic sub note => rfl
  | literal value note => rfl
  | union alts note _ => simp [bare, display, bareIn_eq_map]
  | struct fields note _ => simp [bare, display, bareNamed_eq_mapped]
  | map key value note ihkey ihvalue => rw [bare, display, display, ihkey, ihvalue]
  | list item note ih => rw [bare, display, display, ih]
  | tuple items note _ => simp [bare, display, bareIn_eq_map]
  | letIn bindings body note _ ih => simp [bare, display, bareNamed_eq_mapped, ih]
  | ref name note => rfl

end Ty

/-! ## Environments without notes -/

namespace Env

/-- Every type of every scope without its notes. -/
def bare (env : Env) : Env :=
  ⟨env.scopes.map Ty.bareNamed⟩

/-- A name means the same, without notes. -/
theorem lookup_bare (env : Env) (name : String) :
    env.bare.lookup name = (env.lookup name).map Ty.bare := by
  obtain ⟨scopes⟩ := env
  change lookupIn name (scopes.map Ty.bareNamed) = (lookupIn name scopes).map Ty.bare
  induction scopes with
  | nil => rfl
  | cons scope outer ih =>
      rw [List.map_cons, lookupIn, lookupIn, Ty.bareNamed_eq_mapped, Entries.find?_mapped]
      cases Entries.find? name scope with
      | none => exact ih
      | some meaning => rfl

/-- The names in force stay as they are, and each has its meaning without notes. -/
theorem snapshot_bare (env : Env) : env.bare.snapshot = Ty.bareNamed env.snapshot := by
  obtain ⟨scopes⟩ := env
  change flatten (scopes.map Ty.bareNamed) = Ty.bareNamed (flatten scopes)
  induction scopes with
  | nil => rfl
  | cons scope outer ih =>
      rw [List.map_cons, flatten, flatten, ih]
      simp only [Ty.bareNamed_eq_mapped, Entries.insertAll_mapped]

end Env

/-! ## Failures without notes -/

namespace Failure

mutual

/-- The failure with the notes taken off all types that it carries. -/
def bare : Failure → Failure
  | .mismatch ty term => .mismatch ty.bare term
  | .literalMismatch ty term => .literalMismatch ty.bare term
  | .unionExhausted ty term chain => .unionExhausted ty.bare term (bareChain chain)
  | .unknownRef name bindings => .unknownRef name (Ty.bareNamed bindings)
  | .recursionLimit limit => .recursionLimit limit

/-- `bare` on every failure of a chain. -/
def bareChain : List Failure → List Failure
  | [] => []
  | failure :: rest => bare failure :: bareChain rest

end

theorem bareChain_eq_map (chain : List Failure) : bareChain chain = chain.map bare := by
  induction chain with
  | nil => rfl
  | cons failure rest ih => rw [bareChain, ih, List.map_cons]

@[simp]
theorem isFatal_bare (failure : Failure) : failure.bare.isFatal = failure.isFatal := by
  cases failure <;> rfl

@[simp]
theorem term_bare (failure : Failure) : failure.bare.term = failure.term := by
  cases failure <;> rfl

theorem bare_eq_recursionLimit_iff {failure : Failure} {limit : UInt64} :
    failure.bare = .recursionLimit limit ↔ failure = .recursionLimit limit := by
  cases failure <;> simp [bare]

theorem message_bare (failure : Failure) : failure.bare.message = failure.message := by
  cases failure <;> simp only [bare, message.eq_def, Ty.display_bare]

theorem under_bare (failure : Failure) : failure.bare.under = failure.under.map bare := by
  cases failure with
  | unionExhausted ty term chain => exact bareChain_eq_map chain
  | _ => rfl

/-- The failures under a failure stay where they are. -/
theorem nodes_bare (failure : Failure) : failure.bare.nodes = failure.nodes.map bare := by
  induction failure using Failure.induction with
  | step failure ih =>
      rw [nodes_eq, nodes_eq, under_bare, List.map_cons, List.flatMap_map, List.map_flatMap,
        List.flatMap_congr ih]

/-- The values that were refused stay where they are. -/
theorem terms_bare (failure : Failure) :
    failure.bare.nodes.map term = failure.nodes.map term := by
  rw [nodes_bare, List.map_map]
  exact List.map_congr_left fun node _ => node.term_bare

theorem linesAt_bare (failure : Failure) (level : Nat) :
    failure.bare.linesAt level = failure.linesAt level := by
  induction failure using Failure.induction generalizing level with
  | step failure ih =>
      have hunder : failure.under.flatMap (fun below => linesAt (level + 1) below.bare) =
          failure.under.flatMap (linesAt (level + 1)) :=
        List.flatMap_congr fun below hbelow => ih below hbelow (level + 1)
      rw [linesAt_eq, linesAt_eq, message_bare, under_bare, List.flatMap_map, hunder]

/-- No note is printed. -/
theorem render_bare (failure : Failure) : failure.bare.render = failure.render := by
  rw [render, render, linesAt_bare]

end Failure

/-! ## Checks without notes -/

namespace Check

/-- A trial with the notes taken off its failures. -/
def Trial.bare : Trial → Trial
  | .accepted => .accepted
  | .stopped failure => .stopped failure.bare
  | .exhausted chain => .exhausted (chain.map Failure.bare)

theorem every_bare {α β : Type} {check : α → Except Failure Unit} {check' : β → Except Failure Unit}
    {g : α → β} {as : List α} (h : ∀ a ∈ as, check' (g a) = (check a).mapError Failure.bare) :
    every check' (as.map g) = (every check as).mapError Failure.bare := by
  induction as with
  | nil => rfl
  | cons a rest ih =>
      obtain ⟨ha, hrest⟩ := List.forall_mem_cons.1 h
      rw [List.map_cons, every, every, ha]
      cases check a with
      | ok _ => exact ih hrest
      | error failure => rfl

/-- Taking the notes off changes neither which alternative accepts nor which failure is fatal. -/
theorem tryEach_bare {check check' : Ty → Except Failure Unit} {alts : List Ty}
    (h : ∀ alt ∈ alts, check' alt.bare = (check alt).mapError Failure.bare) :
    tryEach check' (alts.map Ty.bare) = (tryEach check alts).bare := by
  induction alts with
  | nil => rfl
  | cons alt rest ih =>
      obtain ⟨halt, hrest⟩ := List.forall_mem_cons.1 h
      rw [List.map_cons, tryEach, tryEach, halt]
      cases check alt with
      | ok _ => rfl
      | error failure =>
          simp only [Except.mapError, Failure.isFatal_bare]
          split
          · rfl
          · rw [ih hrest]
            cases tryEach check rest <;> rfl

variable {inner : Judge}

theorem memberCheck_bare
    (h : ∀ env term ty, inner env.bare term ty.bare = (inner env term ty).mapError Failure.bare)
    (env : Env) (key value : Ty) (member : String × Value) :
    memberCheck inner env.bare key.bare value.bare member =
      (memberCheck inner env key value member).mapError Failure.bare := by
  rw [memberCheck, memberCheck, h]
  cases inner env (some (.string member.1)) key with
  | ok _ => exact h env (some member.2) value
  | error failure => rfl

/-- One level does not look at notes, if the checks that it asks for do not. -/
theorem level_bare
    (h : ∀ env term ty, inner env.bare term ty.bare = (inner env term ty).mapError Failure.bare)
    (env : Env) (term : Option Value) (ty : Ty) :
    level inner env.bare term ty.bare = (level inner env term ty).mapError Failure.bare := by
  cases ty with
  | basic sub note =>
      simp only [Ty.bare, level]
      split <;> rfl
  | literal expected note =>
      cases term with
      | none => rfl
      | some v =>
          simp only [Ty.bare, level]
          split <;> rfl
  | ref name note =>
      simp only [Ty.bare, level, Env.lookup_bare]
      cases env.lookup name with
      | none =>
          simp only [Option.map_none, Env.snapshot_bare]
          rfl
      | some meaning => exact h env term meaning
  | letIn bindings body note => exact h (env.extend bindings) term body
  | union alts note =>
      have htry : tryEach (fun alt => inner env.bare term alt) (alts.map Ty.bare) =
          (tryEach (fun alt => inner env term alt) alts).bare :=
        tryEach_bare fun alt _ => h env term alt
      simp only [Ty.bare, level, Ty.bareIn_eq_map, htry]
      cases tryEach (fun alt => inner env term alt) alts with
      | accepted => rfl
      | stopped failure => rfl
      | exhausted chain =>
          simp only [Trial.bare, Except.mapError, Failure.bare, Failure.bareChain_eq_map, Ty.bare,
            Ty.bareIn_eq_map]
  | struct fields note =>
      simp only [Ty.bare, level, Ty.bareNamed_eq_mapped]
      split
      · next members =>
          exact every_bare fun field _ => h env (Entries.find? field.1 members) field.2
      · simp only [Except.mapError, Failure.bare, Ty.bare, Ty.bareNamed_eq_mapped]
  | map key value note =>
      simp only [Ty.bare, level]
      split
      · next members =>
          have hmembers : every (memberCheck inner env.bare key.bare value.bare) (members.map id) =
              (every (memberCheck inner env key value) members).mapError Failure.bare :=
            every_bare fun member _ => memberCheck_bare h env key value member
          rwa [List.map_id] at hmembers
      · rfl
  | list item note =>
      simp only [Ty.bare, level]
      split
      · next items =>
          have hitems : every (fun v => inner env.bare (some v) item.bare) (items.map id) =
              (every (fun v => inner env (some v) item) items).mapError Failure.bare :=
            every_bare fun v _ => h env (some v) item
          rwa [List.map_id] at hitems
      · rfl
  | tuple parts note =>
      simp only [Ty.bare, level, Ty.bareIn_eq_map, List.length_map]
      split
      · next items =>
          split
          · rw [List.zip_map_right]
            exact every_bare fun pair _ => h env (some pair.1) pair.2
          · simp only [Except.mapError, Failure.bare, Ty.bare, Ty.bareIn_eq_map]
      · simp only [Except.mapError, Failure.bare, Ty.bare, Ty.bareIn_eq_map]

/-- A check without notes fails as the check with them, without notes. -/
theorem checkAt_bare (limit : UInt64) (levels : Nat) (env : Env) (term : Option Value) (ty : Ty) :
    checkAt limit levels env.bare term ty.bare =
      (checkAt limit levels env term ty).mapError Failure.bare := by
  induction levels generalizing env term ty with
  | zero => rfl
  | succ levels ih => exact level_bare ih env term ty

/-- Notes never affect a check. For types and environments that differ in their notes only, every
checker accepts a value in both cases, or fails in both cases with trees of failures that differ
only in the notes of the types they carry. These have the same printed text and the same values at
the same places, and if one is a limit, the other is the same limit. -/
theorem checkGiven_of_bare_eq {env env' : Env} {ty ty' : Ty} (henv : env.bare = env'.bare)
    (hty : ty.bare = ty'.bare) (checker : Checker) (room : Bool) (term : Option Value) :
    (checker.checkGiven room env term ty = .ok () ∧
      checker.checkGiven room env' term ty' = .ok ()) ∨
    ∃ failure failure', checker.checkGiven room env term ty = .error failure ∧
      checker.checkGiven room env' term ty' = .error failure' ∧
      failure.bare = failure'.bare ∧ failure.render = failure'.render ∧
      failure.nodes.map Failure.term = failure'.nodes.map Failure.term ∧
      ∀ limit, failure = .recursionLimit limit ↔ failure' = .recursionLimit limit := by
  have hbare : (checker.checkGiven room env term ty).mapError Failure.bare =
      (checker.checkGiven room env' term ty').mapError Failure.bare := by
    simp only [Checker.checkGiven_eq_reach, upTo]
    rw [← checkAt_bare, ← checkAt_bare, henv, hty]
  cases hfirst : checker.checkGiven room env term ty with
  | ok _ =>
      cases hsecond : checker.checkGiven room env' term ty' with
      | ok _ => exact Or.inl ⟨rfl, rfl⟩
      | error failure' =>
          rw [hfirst, hsecond] at hbare
          cases hbare
  | error failure =>
      cases hsecond : checker.checkGiven room env' term ty' with
      | ok _ =>
          rw [hfirst, hsecond] at hbare
          cases hbare
      | error failure' =>
          rw [hfirst, hsecond] at hbare
          have hsame : failure.bare = failure'.bare := Except.error.inj hbare
          refine Or.inr ⟨failure, failure', rfl, rfl, hsame, ?_, ?_, ?_⟩
          · rw [← failure.render_bare, hsame, failure'.render_bare]
          · rw [← failure.terms_bare, hsame, failure'.terms_bare]
          · intro limit
            rw [← Failure.bare_eq_recursionLimit_iff, hsame, Failure.bare_eq_recursionLimit_iff]

/-- A union of which one alternative is bound in the environment and another refers to a let,
with notes here and there and without. The failures carry different types. -/
theorem checkGiven_of_bare_eq_union :
    let one : Value := .string "one"
    let other : Value := .array [.null]
    let env : Env := .root [("id", .basic .string (some one))]
    let env' : Env := .root [("id", .basic .string none)]
    let ty : Ty := .letIn [("n", .basic .int (some other))]
      (.union [.ref "id" none, .struct [("k", .ref "n" (some one))] none, .ref "z" (some other)]
        (some one)) none
    let ty' : Ty := .letIn [("n", .basic .int none)]
      (.union [.ref "id" (some other), .struct [("k", .ref "n" none)] none, .ref "z" none]
        (some other)) (some one)
    let term : Option Value := some (.object [("k", .bool true)])
    env.bare = env'.bare ∧ ty.bare = ty'.bare ∧
    Checker.checkGiven true {} env term ty ≠ Checker.checkGiven true {} env' term ty' ∧
    ∃ failure failure', Checker.checkGiven true {} env term ty = .error failure ∧
      Checker.checkGiven true {} env' term ty' = .error failure' ∧
      failure.bare = failure'.bare ∧ failure.render = failure'.render := by
  intro one other env env' ty ty' term
  have henv : env.bare = env'.bare := rfl
  have hty : ty.bare = ty'.bare := rfl
  have hrefused : Checker.checkGiven true {} env term ty ≠ .ok () := by decide +zetaReduce
  have hdiffer : Checker.checkGiven true {} env term ty ≠
      Checker.checkGiven true {} env' term ty' := by decide +zetaReduce
  refine ⟨henv, hty, hdiffer, ?_⟩
  rcases checkGiven_of_bare_eq henv hty {} true term with
    ⟨hok, -⟩ | ⟨failure, failure', hfirst, hsecond, hbare, hrender, -⟩
  · exact absurd hok hrefused
  · exact ⟨failure, failure', hfirst, hsecond, hbare, hrender⟩

end Check

end TypedJson
