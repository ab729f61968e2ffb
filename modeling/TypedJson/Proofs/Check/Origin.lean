import TypedJson.Proofs.Check.Reach
import TypedJson.Proofs.Failure

/-!
# Where failures come from

A failure goes up through structs, maps, lists, tuples, lets and references unchanged, and
into the chain of every union on its way. So each failure in the tree that a check returns was
reported by one level, somewhere below: at a check that the whole check leads to, in the
environment that was in force there (`exists_origin`). Only running out of levels has no such
place, and then it is all there is.

Two consequences. Where every name can be understood, no failure of the tree is about an
unknown name (`checkGiven_ne_unknownRef`). And each failure of the tree can be had again by a
check of its own term against its own type (`checkGiven_replays`).
-/

set_option autoImplicit false

namespace TypedJson.Check

/-- The checks that a check leads to, through what one level after the other consults. -/
inductive Reaches : Env → Option Value → Ty → Env → Option Value → Ty → Prop where
  | refl {env : Env} {term : Option Value} {ty : Ty} : Reaches env term ty env term ty
  | step {env env' env'' : Env} {term term' term'' : Option Value} {ty ty' ty'' : Ty} :
      Consults env term ty env' term' ty' → Reaches env' term' ty' env'' term'' ty'' →
      Reaches env term ty env'' term'' ty''

variable {env env' : Env} {term term' : Option Value} {ty ty' : Ty}

/-- What every step keeps holds at the end if it holds at the start. -/
theorem Reaches.keeps {motive : Env → Option Value → Ty → Prop}
    (hstep : ∀ {env term ty env' term' ty'}, Consults env term ty env' term' ty' →
      motive env term ty → motive env' term' ty')
    (h : Reaches env term ty env' term' ty') (hstart : motive env term ty) :
    motive env' term' ty' := by
  induction h with
  | refl => exact hstart
  | step hconsults _ ih => exact ih (hstep hconsults hstart)

/-- Every failure in the tree was reported by one level of a check that was reached. The
induction is on the levels. A failure that comes up from a part is traced there; one in the
chain of a union is traced to its alternative. -/
theorem exists_origin {limit : UInt64} {levels : Nat} {failure node : Failure}
    (h : checkAt limit levels env term ty = .error failure) (hnode : node ∈ failure.nodes) :
    (failure = .recursionLimit limit ∧ node = failure) ∨
      ∃ fewer env' term' ty', fewer < levels ∧ Reaches env term ty env' term' ty' ∧
        Reports (checkAt limit fewer) env' term' ty' node := by
  induction levels generalizing env term ty failure with
  | zero =>
      cases h
      exact Or.inl ⟨rfl, List.mem_singleton.1 hnode⟩
  | succ levels ih =>
      rcases reports_or_consults h with hreports | ⟨env₁, term₁, ty₁, hconsults, hpart⟩
      · -- The level has reported the failure; the nodes under it are those of alternatives.
        by_cases hself : node = failure
        · subst hself
          exact Or.inr ⟨levels, env, term, ty, Nat.lt_succ_self _, .refl, hreports⟩
        · cases hreports with
          | unionExhausted hchain =>
              rcases Failure.mem_nodes_unionExhausted.1 hnode with heq | ⟨under, hunder, hmem⟩
              · exact absurd heq hself
              · obtain ⟨alt, halt, hfails, hsettled⟩ := exists_left_of_forall₂ hchain hunder
                rcases ih hfails hmem with ⟨hfatal, -⟩ | ⟨fewer, env₁, term₁, ty₁, hlt, hreach, hown⟩
                · subst hfatal
                  cases hsettled
                · exact Or.inr ⟨fewer, env₁, term₁, ty₁, Nat.lt_succ_of_lt hlt,
                    .step (.union halt) hreach, hown⟩
          | _ => exact absurd (List.mem_singleton.1 hnode) hself
      · rcases ih hpart hnode with hfatal | ⟨fewer, env₂, term₂, ty₂, hlt, hreach, hown⟩
        · exact Or.inl hfatal
        · exact Or.inr ⟨fewer, env₂, term₂, ty₂, Nat.lt_succ_of_lt hlt,
            .step hconsults hreach, hown⟩

/-! ## Names in scope -/

/-- No failure is about an unknown name where all names are in scope. The scopes of the
environment refer to their own names and to those around them, the type to names in force; a
name may be bound again further in. Then no value, at any depth, makes the check meet a name
without a meaning: what a name is bound to is checked in another environment than the one it
was written in, but all that it refers to is still in force there. -/
theorem checkGiven_ne_unknownRef (env : Env) (hclosed : env.Closed) (ty : Ty)
    (hscoped : ty.freeNames ⊆ env.names) (checker : Checker) (room : Bool) (term : Option Value)
    (failure : Failure) (h : checker.checkGiven room env term ty = .error failure) :
    ∀ node ∈ failure.nodes, ∀ name bindings, node ≠ .unknownRef name bindings := by
  intro node hnode name bindings hunknown
  subst hunknown
  rw [Checker.checkGiven_eq_reach] at h
  rcases exists_origin h hnode with ⟨hfatal, hwhole⟩ | ⟨fewer, env', term', ty', -, hreach, hown⟩
  · rw [hfatal] at hwhole
    cases hwhole
  · have hinScope : env'.Closed ∧ ty'.freeNames ⊆ env'.names := by
      apply hreach.keeps (motive := fun env _ ty => env.Closed ∧ ty.freeNames ⊆ env.names)
      · intro _ _ _ _ _ _ hconsults hkept
        exact hconsults.closed hkept.1 hkept.2
      · exact ⟨hclosed, hscoped⟩
    cases hown with
    | unknownRef hname =>
        exact Env.lookup_eq_none_iff.1 hname (hinScope.2 (List.mem_singleton.2 rfl))

/-- In two scopes, of which the inner one binds `b` anew, and under a let that binds `a` anew:
both alternatives go through both names, and each fails for another meaning of `a`. -/
theorem checkGiven_ne_unknownRef_shadowed :
    let env : Env := ⟨[[("b", .list (.ref "a" none) none)],
      [("a", .basic .null none), ("b", .ref "a" none)]]⟩
    let record : Ty := .struct [("x", .ref "b" none)] none
    let ty : Ty := .union [.ref "b" none, .letIn [("a", record)] (.ref "b" none) none] none
    let text : Option Value := some (.string "s")
    let term : Option Value := some (.array [.string "s"])
    let failure : Failure := .unionExhausted ty term
      [.mismatch (.basic .null none) text, .mismatch record text]
    env.Closed ∧ ty.freeNames ⊆ env.names ∧
    Checker.checkGiven true {} env term ty = .error failure ∧
    ∀ node ∈ failure.nodes, ∀ name bindings, node ≠ .unknownRef name bindings := by
  intro env record ty text term failure
  have hclosed : env.Closed := by decide +zetaReduce
  have hscoped : ty.freeNames ⊆ env.names := by decide +zetaReduce
  have hfails : Checker.checkGiven true {} env term ty = .error failure := by decide +zetaReduce
  refine ⟨hclosed, hscoped, hfails, ?_⟩
  exact checkGiven_ne_unknownRef env hclosed ty hscoped {} true term failure hfails

/-! ## Failures that can be had again -/

/-- The terms in view of a check: those inside the type, and those inside what the names in
force mean. What is bound under a name that is bound again further in is not in view. -/
def InView (env : Env) (ty u : Ty) : Prop :=
  u ∈ ty.terms ∨ ∃ name meaning, env.lookup name = some meaning ∧ u ∈ meaning.terms

/-- What is in view of a consulted check was in view before. -/
theorem Consults.inView (h : Consults env term ty env' term' ty') {u : Ty}
    (hu : InView env' ty' u) : InView env ty u := by
  rcases hu with hpart | ⟨name, meaning, hname, hinside⟩
  · rcases h.terms_subset_or_lookup with hsubset | ⟨name, hname⟩
    · exact Or.inl (hsubset hpart)
    · exact Or.inr ⟨name, ty', hname, hpart⟩
  · rw [h.env_eq, Env.lookup_entered] at hname
    cases hfind : Entries.find? name ty.ownBindings with
    | some own =>
        rw [hfind] at hname
        cases hname
        have hown := Entries.mem_of_find? hfind
        exact Or.inl (Ty.terms_subset_of_ownBindings hown hinside)
    | none =>
        rw [hfind] at hname
        exact Or.inr ⟨name, meaning, hname, hinside⟩

/-- The environments that come from the one of a check by bringing into force, one after the
other, the bindings of lets in view. -/
inductive Opened (env : Env) (ty : Ty) : Env → Prop where
  | start : Opened env ty env
  | extend {inside : Env} {bindings : Bindings} {body : Ty} {note : Option Value} :
      Opened env ty inside → InView env ty (.letIn bindings body note) →
      Opened env ty (inside.extend bindings)

theorem Reaches.opened (h : Reaches env term ty env' term' ty') : Opened env ty env' := by
  have hkept : Opened env ty env' ∧ ∀ u, InView env' ty' u → InView env ty u := by
    apply h.keeps (motive := fun inside _ t => Opened env ty inside ∧
      ∀ u, InView inside t u → InView env ty u)
    · rintro inside _ t _ _ _ hconsults ⟨hopened, hview⟩
      refine ⟨?_, fun u hu => hview u (hconsults.inView hu)⟩
      rw [hconsults.env_eq]
      cases t with
      | letIn bindings body note =>
          exact hopened.extend (hview _ (Or.inl (Ty.self_mem_terms _)))
      | _ => exact hopened
    · exact ⟨.start, fun u hu => hu⟩
  exact hkept.1

/-- A failure that was reported with fewer levels is that of a run from the start. -/
theorem upTo_of_checkAt {limit : UInt64} {levels : Nat} {failure : Failure}
    (h : checkAt limit levels env term ty = .error failure) (hsettled : failure.isFatal = false)
    (hle : levels ≤ limit.toNat + 1) : upTo limit env term ty = .error failure := by
  rw [← h]
  apply checkAt_of_settled limit limit hle
  rw [h]
  exact hsettled

theorem Reports.upTo_eq {limit : UInt64} {fewer : Nat} {failure : Failure}
    (h : Reports (checkAt limit fewer) env term ty failure) (hlt : fewer < limit.toNat + 1) :
    upTo limit env term ty = .error failure := by
  have hlevel : checkAt limit (fewer + 1) env term ty = .error failure := h.level_eq
  exact upTo_of_checkAt hlevel h.not_fatal hlt

/-- A check that does not depend on what it consults fails the same everywhere. -/
theorem checkGiven_of_reports {failure : Failure}
    (h : ∀ inner env, Reports inner env term ty failure) (checker : Checker) (room : Bool)
    (env : Env) : checker.checkGiven room env term ty = .error failure := by
  rw [Checker.checkGiven_eq_reach]
  exact (h _ env).level_eq

/-- How a failure from a check by `checker` of `ty` in `env` can be had again. A refusal by
shape or by comparison is the same everywhere and at every depth. That of a union is had in an
environment that the check opened; an unknown name is unknown in such an environment, and its
bindings are all that is in force there. -/
def Replays (checker : Checker) (room : Bool) (env : Env) (ty : Ty) : Failure → Prop
  | .mismatch t term =>
      ∀ (other : Checker) (room' : Bool) (env' : Env),
        other.checkGiven room' env' term t = .error (.mismatch t term)
  | .literalMismatch t term =>
      ∀ (other : Checker) (room' : Bool) (env' : Env),
        other.checkGiven room' env' term t = .error (.literalMismatch t term)
  | .unionExhausted t term chain =>
      ∃ env', Opened env ty env' ∧
        checker.checkGiven room env' term t = .error (.unionExhausted t term chain)
  | .unknownRef name bindings =>
      ∃ env', Opened env ty env' ∧ env'.lookup name = none ∧ env'.snapshot = bindings
  | .recursionLimit _ => True

/-- Every failure in the tree can be had again. -/
theorem checkGiven_replays (checker : Checker) (room : Bool) (env : Env) (term : Option Value)
    (ty : Ty) (failure : Failure) (h : checker.checkGiven room env term ty = .error failure) :
    ∀ node ∈ failure.nodes, Replays checker room env ty node := by
  intro node hnode
  rw [Checker.checkGiven_eq_reach] at h
  rcases exists_origin h hnode with ⟨hfatal, rfl⟩ | ⟨fewer, env', term', ty', hlt, hreach, hown⟩
  · rw [hfatal]
    trivial
  · have hagain := hown.upTo_eq hlt
    cases hown with
    | mismatch hno => exact checkGiven_of_reports fun inner env => .mismatch hno
    | literalMismatch hno => exact checkGiven_of_reports fun inner env => .literalMismatch hno
    | unionExhausted hchain =>
        refine ⟨env', hreach.opened, ?_⟩
        rw [Checker.checkGiven_eq_reach]
        exact hagain
    | unknownRef hname => exact ⟨env', hreach.opened, hname, rfl⟩

/-- A failure of every kind inside a list, under a let: a number that is no null, no `true` and
not of an unknown type. -/
theorem checkGiven_replays_item :
    let null : Ty := .basic .null none
    let yes : Ty := .literal (.bool true) none
    let item : Ty := .union [null, yes, .ref "other" none] none
    let ty : Ty := .letIn [("item", item)] (.list (.ref "item" none) none) none
    let one : Value := .number (.ofUInt64 1)
    let failure : Failure := .unionExhausted item (some one)
      [.mismatch null (some one), .literalMismatch yes (some one),
        .unknownRef "other" [("item", item)]]
    Checker.checkGiven true ⟨8⟩ .empty (some (.array [.null, one])) ty = .error failure ∧
    ∀ node ∈ failure.nodes, Replays ⟨8⟩ true .empty ty node := by
  intro null yes item ty one failure
  have hfails : Checker.checkGiven true ⟨8⟩ .empty (some (.array [.null, one])) ty =
      .error failure := by decide +zetaReduce
  exact ⟨hfails, checkGiven_replays ⟨8⟩ true .empty _ ty failure hfails⟩

end TypedJson.Check
