import TypedJson.Check
import TypedJson.Proofs.Entries

/-!
# Levels do not change a settled check

A check that runs out of levels is given up with a fatal failure. Every other result
is settled: more levels give the same result, the whole tree of failures included
(`checkAt_of_settled`). The reason is local to one level. A fatal failure of a part is
never kept in a chain and never passed over, so a settled level has looked at settled
parts only (`level_of_settled`).

What one level can do is said once: `Consults` are the checks that it asks for, `Reports` the
failures that it makes itself, and there are no others (`reports_or_consults`).

`checkGiven_eq_upTo` draws the consequence for checkers: the first try with a few levels
is never seen in the result, except where no work area can be had for a second one.
-/

set_option autoImplicit false

namespace TypedJson.Check

variable {α : Type}

/-- The check was not given up. -/
def Settled : Except Failure Unit → Prop
  | .ok _ => True
  | .error failure => failure.isFatal = false

instance (result : Except Failure Unit) : Decidable (Settled result) :=
  match result with
  | .ok _ => inferInstanceAs (Decidable True)
  | .error failure => inferInstanceAs (Decidable (failure.isFatal = false))

@[simp]
theorem settled_ok : Settled (.ok ()) := trivial

@[simp]
theorem settled_error (failure : Failure) :
    Settled (.error failure) ↔ failure.isFatal = false := Iff.rfl

/-- The fatal failures are those that name a limit. -/
theorem isFatal_iff (failure : Failure) :
    failure.isFatal = true ↔ ∃ limit, failure = .recursionLimit limit := by
  cases failure <;> simp [Failure.isFatal]

theorem not_settled_iff (result : Except Failure Unit) :
    ¬ Settled result ↔ ∃ limit, result = .error (.recursionLimit limit) := by
  cases result with
  | ok _ => simp [Settled]
  | error failure => simp [isFatal_iff]

/-! ## Lists of checks -/

theorem every_congr {check check' : α → Except Failure Unit} {as : List α}
    (h : ∀ a ∈ as, check a = check' a) : every check as = every check' as := by
  induction as with
  | nil => rfl
  | cons a rest ih =>
      obtain ⟨ha, hrest⟩ := List.forall_mem_cons.1 h
      simp only [every, ha, ih hrest]

theorem tryEach_congr {check check' : Ty → Except Failure Unit} {alts : List Ty}
    (h : ∀ alt ∈ alts, check alt = check' alt) : tryEach check alts = tryEach check' alts := by
  induction alts with
  | nil => rfl
  | cons alt rest ih =>
      obtain ⟨halt, hrest⟩ := List.forall_mem_cons.1 h
      simp only [tryEach, halt, ih hrest]

theorem every_eq_ok_iff (check : α → Except Failure Unit) (as : List α) :
    every check as = .ok () ↔ ∀ a ∈ as, check a = .ok () := by
  induction as with
  | nil => simp [every]
  | cons a rest ih =>
      cases ha : check a with
      | ok _ => simp [every, ha, ih]
      | error failure => simp [every, ha]

/-- A failure of a list of checks is the failure of one of them. -/
theorem exists_of_every_eq_error {check : α → Except Failure Unit} {as : List α}
    {failure : Failure} (h : every check as = .error failure) :
    ∃ a ∈ as, check a = .error failure := by
  induction as with
  | nil => simp [every] at h
  | cons a rest ih =>
      cases ha : check a with
      | ok _ =>
          simp only [every, ha] at h
          obtain ⟨b, hb, hfail⟩ := ih h
          exact ⟨b, List.mem_cons_of_mem a hb, hfail⟩
      | error other =>
          simp only [every, ha] at h
          cases h
          exact ⟨a, List.mem_cons_self, ha⟩

theorem exists_of_tryEach_eq_accepted {check : Ty → Except Failure Unit} {alts : List Ty}
    (h : tryEach check alts = .accepted) : ∃ alt ∈ alts, check alt = .ok () := by
  induction alts with
  | nil => simp [tryEach] at h
  | cons alt rest ih =>
      cases halt : check alt with
      | ok _ => exact ⟨alt, List.mem_cons_self, halt⟩
      | error failure =>
          cases hfatal : failure.isFatal with
          | true => simp [tryEach, halt, hfatal] at h
          | false =>
              cases hrest : tryEach check rest with
              | accepted =>
                  obtain ⟨other, hmem, hok⟩ := ih hrest
                  exact ⟨other, List.mem_cons_of_mem alt hmem, hok⟩
              | stopped stop => simp [tryEach, halt, hfatal, hrest] at h
              | exhausted chain => simp [tryEach, halt, hfatal, hrest] at h

/-- A trial is stopped only by the fatal failure of an alternative. -/
theorem exists_of_tryEach_eq_stopped {check : Ty → Except Failure Unit} {alts : List Ty}
    {failure : Failure} (h : tryEach check alts = .stopped failure) :
    ∃ alt ∈ alts, check alt = .error failure ∧ failure.isFatal = true := by
  induction alts with
  | nil => simp [tryEach] at h
  | cons alt rest ih =>
      cases halt : check alt with
      | ok _ => simp [tryEach, halt] at h
      | error other =>
          cases hfatal : other.isFatal with
          | true =>
              simp only [tryEach, halt, hfatal, if_true] at h
              cases h
              exact ⟨alt, List.mem_cons_self, halt, hfatal⟩
          | false =>
              cases hrest : tryEach check rest with
              | accepted => simp [tryEach, halt, hfatal, hrest] at h
              | stopped stop =>
                  have hstop : stop = failure := by
                    simpa [tryEach, halt, hfatal, hrest] using h
                  subst hstop
                  obtain ⟨next, hmem, hfail⟩ := ih hrest
                  exact ⟨next, List.mem_cons_of_mem alt hmem, hfail⟩
              | exhausted chain => simp [tryEach, halt, hfatal, hrest] at h

/-- An exhausted trial has one failure for each alternative, in order, none of them
fatal. -/
theorem tryEach_eq_exhausted_iff (check : Ty → Except Failure Unit) (alts : List Ty)
    (chain : List Failure) :
    tryEach check alts = .exhausted chain ↔
      List.Forall₂ (fun alt failure => check alt = .error failure ∧ failure.isFatal = false)
        alts chain := by
  induction alts generalizing chain with
  | nil =>
      rw [List.forall₂_nil_left_iff]
      exact ⟨fun h => by cases h; rfl, fun h => by rw [h]; rfl⟩
  | cons alt rest ih =>
      rw [List.forall₂_cons_left_iff]
      cases halt : check alt with
      | ok _ => simp [tryEach, halt]
      | error failure =>
          cases hfatal : failure.isFatal with
          | true =>
              simp only [tryEach, halt, hfatal, if_true, reduceCtorEq, false_iff]
              rintro ⟨other, more, ⟨heq, hother⟩, -, -⟩
              cases heq
              simp [hfatal] at hother
          | false =>
              cases hrest : tryEach check rest with
              | accepted => simp [tryEach, halt, hfatal, hrest, ← ih]
              | stopped stop => simp [tryEach, halt, hfatal, hrest, ← ih]
              | exhausted more =>
                  simp only [tryEach, halt, hfatal, hrest, Bool.false_eq_true, if_false, ← ih,
                    Trial.exhausted.injEq, Except.error.injEq]
                  constructor
                  · rintro rfl
                    exact ⟨failure, more, ⟨rfl, hfatal⟩, rfl, rfl⟩
                  · rintro ⟨other, chain', ⟨rfl, -⟩, rfl, rfl⟩
                    rfl

/-! ## One level -/

variable {inner inner' : Judge}

/-- Where the parts of a level are settled, the second check has the same results. -/
def Extends (inner' inner : Judge) : Prop :=
  ∀ env term ty, Settled (inner env term ty) → inner' env term ty = inner env term ty

theorem every_of_settled {check check' : α → Except Failure Unit}
    (hext : ∀ a, Settled (check a) → check' a = check a) {as : List α}
    (h : Settled (every check as)) : every check' as = every check as := by
  induction as with
  | nil => rfl
  | cons a rest ih =>
      cases ha : check a with
      | ok _ =>
          have ha' : check' a = .ok () := by rw [hext a (by rw [ha]; trivial), ha]
          simp only [every, ha, ha'] at h ⊢
          exact ih h
      | error failure =>
          simp only [every, ha] at h ⊢
          rw [hext a (by rw [ha]; exact h), ha]

/-- A trial that is not stopped has met settled alternatives only. -/
theorem tryEach_of_not_stopped {check check' : Ty → Except Failure Unit}
    (hext : ∀ alt, Settled (check alt) → check' alt = check alt) {alts : List Ty}
    (h : ∀ failure, tryEach check alts ≠ .stopped failure) :
    tryEach check' alts = tryEach check alts := by
  induction alts with
  | nil => rfl
  | cons alt rest ih =>
      cases halt : check alt with
      | ok _ => simp [tryEach, halt, hext alt (by rw [halt]; trivial)]
      | error failure =>
          cases hfatal : failure.isFatal with
          | true => simp [tryEach, halt, hfatal] at h
          | false =>
              have halt' : check' alt = .error failure := by
                rw [hext alt (by rw [halt]; exact hfatal), halt]
              have hrest : tryEach check' rest = tryEach check rest := by
                apply ih
                intro stop hstop
                exact h stop (by simp [tryEach, halt, hfatal, hstop])
              simp [tryEach, halt, halt', hfatal, hrest]

theorem memberCheck_eq_ok_iff (env : Env) (key value : Ty) (member : String × Value) :
    memberCheck inner env key value member = .ok () ↔
      inner env (some (.string member.1)) key = .ok () ∧
        inner env (some member.2) value = .ok () := by
  cases hkey : inner env (some (.string member.1)) key <;> simp [memberCheck, hkey]

/-- A member is refused for its name, or, with an accepted name, for its value. -/
theorem memberCheck_eq_error {env : Env} {key value : Ty} {member : String × Value}
    {failure : Failure} (h : memberCheck inner env key value member = .error failure) :
    inner env (some (.string member.1)) key = .error failure ∨
      inner env (some (.string member.1)) key = .ok () ∧
        inner env (some member.2) value = .error failure := by
  cases hkey : inner env (some (.string member.1)) key with
  | ok _ =>
      simp only [memberCheck, hkey] at h
      exact Or.inr ⟨rfl, h⟩
  | error other =>
      simp only [memberCheck, hkey] at h
      exact Or.inl h

/-- A union accepts by one of its alternatives. -/
theorem exists_of_union_eq_ok {env : Env} {term : Option Value} {alts : List Ty}
    {note : Option Value} (h : level inner env term (.union alts note) = .ok ()) :
    ∃ alt ∈ alts, inner env term alt = .ok () := by
  simp only [level] at h
  split at h
  · next haccepted => exact exists_of_tryEach_eq_accepted haccepted
  · cases h
  · cases h

/-- What a level looks at: checking `term` against a type in `env` may ask for the check
of a part, or of what a reference means, in an environment of its own. -/
inductive Consults (env : Env) (term : Option Value) : Ty → Env → Option Value → Ty → Prop where
  | ref {name : String} {meaning : Ty} {note : Option Value} :
      env.lookup name = some meaning → Consults env term (.ref name note) env term meaning
  | letIn {bindings : Bindings} {body : Ty} {note : Option Value} :
      Consults env term (.letIn bindings body note) (env.extend bindings) term body
  | union {alts : List Ty} {alt : Ty} {note : Option Value} :
      alt ∈ alts → Consults env term (.union alts note) env term alt
  | field {members : List (String × Value)} {fields : List (String × Ty)} {name : String}
      {ty : Ty} {note : Option Value} :
      term = some (.object members) → (name, ty) ∈ fields →
      Consults env term (.struct fields note) env (Entries.find? name members) ty
  | key {members : List (String × Value)} {name : String} {v : Value} {key value : Ty}
      {note : Option Value} :
      term = some (.object members) → (name, v) ∈ members →
      Consults env term (.map key value note) env (some (.string name)) key
  | member {members : List (String × Value)} {name : String} {v : Value} {key value : Ty}
      {note : Option Value} :
      term = some (.object members) → (name, v) ∈ members →
      Consults env term (.map key value note) env (some v) value
  | item {items : List Value} {v : Value} {item : Ty} {note : Option Value} :
      term = some (.array items) → v ∈ items →
      Consults env term (.list item note) env (some v) item
  | part {items : List Value} {parts : List Ty} {v : Value} {ty : Ty} {note : Option Value} :
      term = some (.array items) → (v, ty) ∈ items.zip parts →
      Consults env term (.tuple parts note) env (some v) ty

/-- A level depends on what it consults, and on what its environment says of a name that it
refers to. The environments may differ in all else. -/
theorem level_congr {env env' : Env} {term : Option Value} {ty : Ty}
    (hname : ∀ name note, ty = .ref name note →
      env.lookup name = env'.lookup name ∧ env.snapshot = env'.snapshot)
    (h : ∀ {inside inside' term' ty'}, Consults env term ty inside term' ty' →
      Consults env' term ty inside' term' ty' →
      inner inside term' ty' = inner' inside' term' ty') :
    level inner env term ty = level inner' env' term ty := by
  cases ty with
  | basic sub note => rfl
  | literal expected note => rfl
  | ref name note =>
      obtain ⟨hlookup, hsnapshot⟩ := hname name note rfl
      cases hfound : env.lookup name with
      | none => simp only [level, hfound, hlookup ▸ hfound, hsnapshot]
      | some meaning =>
          simp only [level, hfound, hlookup ▸ hfound]
          exact h (.ref hfound) (.ref (hlookup ▸ hfound))
  | letIn bindings body note => exact h .letIn .letIn
  | union alts note =>
      have htry : tryEach (fun alt => inner env term alt) alts =
          tryEach (fun alt => inner' env' term alt) alts :=
        tryEach_congr fun alt hmem => h (.union hmem) (.union hmem)
      simp only [level, htry]
  | struct fields note =>
      simp only [level]
      split
      · exact every_congr fun field hmem => h (.field rfl hmem) (.field rfl hmem)
      · rfl
  | map key value note =>
      simp only [level]
      split
      · apply every_congr
        intro member hmem
        simp only [memberCheck, h (.key rfl hmem) (.key rfl hmem),
          h (.member rfl hmem) (.member rfl hmem)]
      · rfl
  | list item note =>
      simp only [level]
      split
      · exact every_congr fun v hmem => h (.item rfl hmem) (.item rfl hmem)
      · rfl
  | tuple parts note =>
      simp only [level]
      split
      · split
        · exact every_congr fun pair hmem => h (.part rfl hmem) (.part rfl hmem)
        · rfl
      · rfl

/-- The value has the outer shape that the type asks for. Literals, unions, lets and references
ask for none: they compare, or leave the value to other types. -/
def Shaped (term : Option Value) : Ty → Prop
  | .basic sub _ => basicAccepts sub term = true
  | .struct _ _ => ∃ members, term = some (.object members)
  | .map _ _ _ => ∃ members, term = some (.object members)
  | .list _ _ => ∃ items, term = some (.array items)
  | .tuple parts _ => ∃ items, term = some (.array items) ∧ items.length = parts.length
  | _ => True

/-- The failures that a level reports of its own. All others come from a part. -/
inductive Reports (inner : Judge) (env : Env) (term : Option Value) : Ty → Failure → Prop where
  | mismatch {ty : Ty} : ¬ Shaped term ty → Reports inner env term ty (.mismatch ty term)
  | literalMismatch {expected : Value} {note : Option Value} :
      (∀ v, term = some v → v.agrees expected = false) →
      Reports inner env term (.literal expected note)
        (.literalMismatch (.literal expected note) term)
  | unionExhausted {alts : List Ty} {note : Option Value} {chain : List Failure} :
      List.Forall₂ (fun alt failure => inner env term alt = .error failure ∧
        failure.isFatal = false) alts chain →
      Reports inner env term (.union alts note) (.unionExhausted (.union alts note) term chain)
  | unknownRef {name : String} {note : Option Value} :
      env.lookup name = none →
      Reports inner env term (.ref name note) (.unknownRef name env.snapshot)

/-- A failure of a level is reported by the level or by a part that it consults. -/
theorem reports_or_consults {env : Env} {term : Option Value} {ty : Ty} {failure : Failure}
    (h : level inner env term ty = .error failure) :
    Reports inner env term ty failure ∨
      ∃ env' term' ty', Consults env term ty env' term' ty' ∧
        inner env' term' ty' = .error failure := by
  cases ty with
  | basic sub note =>
      simp only [level] at h
      split at h <;> cases h
      next hno => exact Or.inl (.mismatch hno)
  | literal expected note =>
      cases term with
      | none =>
          cases h
          exact Or.inl (.literalMismatch (by simp))
      | some v =>
          simp only [level] at h
          split at h <;> cases h
          next hno => exact Or.inl (.literalMismatch (by simpa using hno))
  | ref name note =>
      cases hname : env.lookup name with
      | none =>
          simp only [level, hname] at h
          cases h
          exact Or.inl (.unknownRef hname)
      | some meaning =>
          simp only [level, hname] at h
          exact Or.inr ⟨_, _, _, .ref hname, h⟩
  | letIn bindings body note => exact Or.inr ⟨_, _, _, .letIn, h⟩
  | union alts note =>
      simp only [level] at h
      split at h
      · cases h
      · next stop hstop =>
          cases h
          obtain ⟨alt, hmem, halt, -⟩ := exists_of_tryEach_eq_stopped hstop
          exact Or.inr ⟨_, _, _, .union hmem, halt⟩
      · next chain hchain =>
          cases h
          exact Or.inl (.unionExhausted ((tryEach_eq_exhausted_iff _ _ _).1 hchain))
  | struct fields note =>
      simp only [level] at h
      split at h
      · obtain ⟨field, hmem, hfield⟩ := exists_of_every_eq_error h
        exact Or.inr ⟨_, _, _, .field rfl hmem, hfield⟩
      · next hno =>
          cases h
          exact Or.inl (.mismatch fun ⟨members, hterm⟩ => hno members hterm)
  | map key value note =>
      simp only [level] at h
      split at h
      · obtain ⟨member, hmem, hmember⟩ := exists_of_every_eq_error h
        rcases memberCheck_eq_error hmember with hkey | ⟨-, hvalue⟩
        · exact Or.inr ⟨_, _, _, .key rfl hmem, hkey⟩
        · exact Or.inr ⟨_, _, _, .member rfl hmem, hvalue⟩
      · next hno =>
          cases h
          exact Or.inl (.mismatch fun ⟨members, hterm⟩ => hno members hterm)
  | list item note =>
      simp only [level] at h
      split at h
      · obtain ⟨v, hmem, hv⟩ := exists_of_every_eq_error h
        exact Or.inr ⟨_, _, _, .item rfl hmem, hv⟩
      · next hno =>
          cases h
          exact Or.inl (.mismatch fun ⟨items, hterm⟩ => hno items hterm)
  | tuple parts note =>
      simp only [level] at h
      split at h
      · split at h
        · obtain ⟨pair, hmem, hpair⟩ := exists_of_every_eq_error h
          exact Or.inr ⟨_, _, _, .part rfl hmem, hpair⟩
        · next hlength =>
            cases h
            refine Or.inl (.mismatch ?_)
            rintro ⟨items, ⟨⟩, hsame⟩
            exact hlength hsame
      · next hno =>
          cases h
          exact Or.inl (.mismatch fun ⟨items, hterm, _⟩ => hno items hterm)

/-- What a level reports of its own is what it fails with. -/
theorem Reports.level_eq {env : Env} {term : Option Value} {ty : Ty} {failure : Failure}
    (h : Reports inner env term ty failure) : level inner env term ty = .error failure := by
  cases h with
  | literalMismatch hno =>
      cases term with
      | none => rfl
      | some v => simp [level, hno v rfl]
  | unionExhausted hchain => simp only [level, (tryEach_eq_exhausted_iff _ _ _).2 hchain]
  | unknownRef hname => simp only [level, hname]
  | mismatch hno =>
      cases ty with
      | basic sub note => exact if_neg hno
      | struct fields note =>
          simp only [level]
          split
          · exact absurd ⟨_, rfl⟩ hno
          · rfl
      | map key value note =>
          simp only [level]
          split
          · exact absurd ⟨_, rfl⟩ hno
          · rfl
      | list item note =>
          simp only [level]
          split
          · exact absurd ⟨_, rfl⟩ hno
          · rfl
      | tuple parts note =>
          simp only [level]
          split
          · split
            · next hlength => exact absurd ⟨_, rfl, hlength⟩ hno
            · rfl
          · rfl
      | _ => exact absurd trivial hno

theorem Reports.not_fatal {env : Env} {term : Option Value} {ty : Ty} {failure : Failure}
    (h : Reports inner env term ty failure) : failure.isFatal = false := by
  cases h <;> rfl

/-- A failure of a level is its own, and then it is not fatal, or that of a part it
consults. -/
theorem level_eq_error {env : Env} {term : Option Value} {ty : Ty} {failure : Failure}
    (h : level inner env term ty = .error failure) :
    failure.isFatal = false ∨
      ∃ env' term' ty', Consults env term ty env' term' ty' ∧
        inner env' term' ty' = .error failure :=
  (reports_or_consults h).imp_left Reports.not_fatal

theorem memberCheck_of_settled (hext : Extends inner' inner) (env : Env) (key value : Ty)
    (member : String × Value) (h : Settled (memberCheck inner env key value member)) :
    memberCheck inner' env key value member = memberCheck inner env key value member := by
  cases hkey : inner env (some (.string member.1)) key with
  | ok _ =>
      have hkey' : inner' env (some (.string member.1)) key = .ok () := by
        rw [hext _ _ _ (by rw [hkey]; trivial), hkey]
      simp only [memberCheck, hkey, hkey'] at h ⊢
      exact hext _ _ _ h
  | error failure =>
      simp only [memberCheck, hkey] at h ⊢
      rw [hext _ _ _ (by rw [hkey]; exact h), hkey]

/-- A settled level depends on settled parts only. -/
theorem level_of_settled (hext : Extends inner' inner) : Extends (level inner') (level inner) := by
  intro env term ty h
  cases ty with
  | basic sub note => rfl
  | literal expected note => rfl
  | ref name note =>
      cases hname : env.lookup name with
      | none => simp only [level, hname]
      | some meaning =>
          simp only [level, hname] at h ⊢
          exact hext _ _ _ h
  | letIn bindings body note => exact hext _ _ _ h
  | union alts note =>
      have hgo : ∀ failure, tryEach (fun alt => inner env term alt) alts ≠ .stopped failure := by
        intro failure hstop
        obtain ⟨-, -, -, hfatal⟩ := exists_of_tryEach_eq_stopped hstop
        simp [level, hstop, hfatal] at h
      have htry : tryEach (fun alt => inner' env term alt) alts =
          tryEach (fun alt => inner env term alt) alts :=
        tryEach_of_not_stopped (fun alt => hext env term alt) hgo
      simp only [level, htry]
  | struct fields note =>
      simp only [level] at h ⊢
      split
      · next members =>
          exact every_of_settled (fun field => hext env (Entries.find? field.1 members) field.2) h
      · rfl
  | map key value note =>
      simp only [level] at h ⊢
      split
      · exact every_of_settled (memberCheck_of_settled hext env key value) h
      · rfl
  | list item note =>
      simp only [level] at h ⊢
      split
      · exact every_of_settled (fun v => hext env (some v) item) h
      · rfl
  | tuple parts note =>
      simp only [level] at h ⊢
      split
      · next items =>
          split
          · next hlength =>
              simp only [hlength, if_true] at h
              exact every_of_settled (fun pair => hext env (some pair.1) pair.2) h
          · rfl
      · rfl

/-! ## All levels -/

/-- A check that is given up reports its own limit. -/
theorem checkAt_fatal {limit : UInt64} {levels : Nat} {env : Env} {term : Option Value} {ty : Ty}
    {failure : Failure} (h : checkAt limit levels env term ty = .error failure)
    (hfatal : failure.isFatal = true) : failure = .recursionLimit limit := by
  induction levels generalizing env term ty with
  | zero =>
      cases h
      rfl
  | succ levels ih =>
      -- Running out of levels is the one fatal failure, so it comes up from a part.
      rcases level_eq_error h with hown | ⟨env', term', ty', -, hpart⟩
      · rw [hown] at hfatal
        cases hfatal
      · exact ih hpart

/-- A settled check stays as it is under more levels, whatever limit it would report. -/
theorem checkAt_of_settled (limit limit' : UInt64) {levels levels' : Nat} (hle : levels ≤ levels') :
    Extends (checkAt limit' levels') (checkAt limit levels) := by
  induction levels generalizing levels' with
  | zero =>
      intro env term ty h
      exact absurd h (by simp [checkAt, Failure.isFatal])
  | succ levels ih =>
      obtain ⟨more, rfl⟩ : ∃ more, levels' = more + 1 := ⟨levels' - 1, by omega⟩
      exact level_of_settled (ih (by omega))

theorem checkAt_of_not_settled {limit : UInt64} {levels : Nat} {env : Env} {term : Option Value}
    {ty : Ty} (h : ¬ Settled (checkAt limit levels env term ty)) :
    checkAt limit levels env term ty = .error (.recursionLimit limit) := by
  obtain ⟨other, hother⟩ := (not_settled_iff _).1 h
  rw [hother, checkAt_fatal hother rfl]

theorem upTo_of_not_settled {limit : UInt64} {env : Env} {term : Option Value} {ty : Ty}
    (h : ¬ Settled (upTo limit env term ty)) :
    upTo limit env term ty = .error (.recursionLimit limit) :=
  checkAt_of_not_settled h

theorem upTo_of_settled {limit limit' : UInt64} (hle : limit ≤ limit') {env : Env}
    {term : Option Value} {ty : Ty} (h : Settled (upTo limit env term ty)) :
    upTo limit' env term ty = upTo limit env term ty := by
  have hlevels : limit.toNat + 1 ≤ limit'.toNat + 1 := by
    have := UInt64.le_iff_toNat_le.1 hle
    omega
  exact checkAt_of_settled limit limit' hlevels env term ty h

end TypedJson.Check

namespace TypedJson.Checker

open Check

section Runs

variable {checker : Checker} {run : UInt64 → Except Failure Unit} (room : Bool)

/-- With all levels within the first try, the first try is the whole check. -/
theorem inRuns_of_le (hle : checker.maxDepth ≤ shallow) :
    checker.inRuns room run = run checker.maxDepth := by
  have hfirst : min checker.maxDepth shallow = checker.maxDepth := if_pos hle
  have hirrefl : ¬ checker.maxDepth < checker.maxDepth := by simp
  simp only [inRuns, hfirst, hirrefl, decide_false, Bool.and_false, Bool.false_eq_true, if_false]
  cases run checker.maxDepth <;> rfl

/-- A first try that is settled is the result. -/
theorem inRuns_of_settled (hlt : shallow < checker.maxDepth) (h : Settled (run shallow)) :
    checker.inRuns room run = run shallow := by
  have hfirst : min checker.maxDepth shallow = shallow := if_neg (by simpa using hlt)
  simp only [inRuns, hfirst]
  cases hfew : run shallow with
  | ok _ => rfl
  | error failure =>
      have hfatal : failure.isFatal = false := by simpa [hfew] using h
      simp [hfatal]

/-- A first try that is given up is run again, where there is room. -/
theorem inRuns_of_not_settled (hlt : shallow < checker.maxDepth) (h : ¬ Settled (run shallow)) :
    checker.inRuns room run =
      if room then run checker.maxDepth else .error (.recursionLimit shallow) := by
  have hfirst : min checker.maxDepth shallow = shallow := if_neg (by simpa using hlt)
  simp only [inRuns, hfirst]
  cases hfew : run shallow with
  | ok _ =>
      rw [hfew] at h
      exact absurd trivial h
  | error failure =>
      have hfatal : failure.isFatal = true := by simpa [hfew] using h
      simp [hfatal, hlt]

/-- The depth that a checker can go to with the room there is. -/
def reach (checker : Checker) (room : Bool) : UInt64 :=
  if room then checker.maxDepth else min checker.maxDepth shallow

theorem reach_true : checker.reach true = checker.maxDepth := rfl

theorem reach_of_le (hle : checker.maxDepth ≤ shallow) :
    checker.reach room = checker.maxDepth := by
  cases room with
  | true => rfl
  | false => exact if_pos hle

theorem reach_false_of_lt (hlt : shallow < checker.maxDepth) : checker.reach false = shallow := by
  have hnot : ¬ checker.maxDepth ≤ shallow := by simpa using hlt
  exact if_neg hnot

end Runs

variable (checker : Checker) (env : Env) (term : Option Value) (ty : Ty)

/-- A checker is one run down to the depth that it can go to. -/
theorem checkGiven_eq_reach (room : Bool) :
    checker.checkGiven room env term ty = upTo (checker.reach room) env term ty := by
  rw [checkGiven]
  by_cases hle : checker.maxDepth ≤ shallow
  · rw [inRuns_of_le room hle, reach_of_le room hle]
  · have hlt : shallow < checker.maxDepth := by simpa using hle
    -- A settled first try is what more levels would give. One that is given up is run again, or
    -- it names the depth of that try, as the run itself does.
    by_cases h : Settled (upTo shallow env term ty)
    · rw [inRuns_of_settled room hlt h]
      cases room with
      | true => exact (upTo_of_settled (UInt64.le_of_lt hlt) h).symm
      | false => rw [reach_false_of_lt hlt]
    · rw [inRuns_of_not_settled room hlt h]
      cases room with
      | true => rfl
      | false =>
          rw [reach_false_of_lt hlt, upTo_of_not_settled h]
          rfl

/-- With room for all levels, a check is the single run with all levels. -/
theorem checkGiven_true :
    checker.checkGiven true env term ty = upTo checker.maxDepth env term ty := by
  rw [checkGiven_eq_reach, reach_true]

/-- Without room, only a check that outgrows the first try differs from the single run. -/
theorem checkGiven_false :
    checker.checkGiven false env term ty =
      if shallow < checker.maxDepth ∧ ¬ Settled (upTo shallow env term ty) then
        .error (.recursionLimit shallow)
      else upTo checker.maxDepth env term ty := by
  rw [checkGiven_eq_reach]
  by_cases hlt : shallow < checker.maxDepth
  · rw [reach_false_of_lt hlt]
    by_cases h : Settled (upTo shallow env term ty)
    · rw [if_neg fun hgaveUp => hgaveUp.2 h]
      exact (upTo_of_settled (UInt64.le_of_lt hlt) h).symm
    · rw [if_pos ⟨hlt, h⟩, upTo_of_not_settled h]
  · rw [if_neg fun hgaveUp => hlt hgaveUp.1, reach_of_le false (by simpa using hlt)]

/-- A check is the single run with all levels. Where no work area can be had, the one
exception is a check that outgrows the first try: it is given up at the depth of that try.
So a settled result is in every case that of the single run. -/
theorem checkGiven_eq_upTo :
    checker.checkIn env term ty = checker.checkGiven checker.hasRoom env term ty ∧
    checker.checkGiven true env term ty = upTo checker.maxDepth env term ty ∧
    checker.checkGiven false env term ty =
      (if shallow < checker.maxDepth ∧ ¬ Settled (upTo shallow env term ty) then
        .error (.recursionLimit shallow)
      else upTo checker.maxDepth env term ty) ∧
    ∀ room, Settled (checker.checkGiven room env term ty) →
      checker.checkGiven room env term ty = upTo checker.maxDepth env term ty := by
  refine ⟨rfl, checkGiven_true checker env term ty, checkGiven_false checker env term ty, ?_⟩
  intro room h
  cases room with
  | true => exact checkGiven_true checker env term ty
  | false =>
      rw [checkGiven_false] at h ⊢
      split
      · next hgaveUp => simp [hgaveUp, Failure.isFatal] at h
      · rfl

/-- Seventy lists around a null need more levels than the first try has. -/
theorem checkGiven_eq_upTo_nested :
    let ty := Nat.repeat (fun t => Ty.list t none) 70 (.basic .null none)
    let term := some (Nat.repeat (fun v => Value.array [v]) 70 .null)
    ¬ Settled (upTo shallow .empty term ty) ∧
    Settled (Checker.checkGiven true ⟨100⟩ .empty term ty) ∧
    Checker.checkGiven true ⟨100⟩ .empty term ty = upTo 100 .empty term ty := by
  refine ⟨by decide, by decide, ?_⟩
  exact (checkGiven_eq_upTo ⟨100⟩ .empty _ _).2.2.2 true (by decide)

end TypedJson.Checker
