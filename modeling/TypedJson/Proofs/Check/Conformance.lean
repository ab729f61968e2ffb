import TypedJson.Proofs.Check.Acceptance

/-!
# Verdicts are right in both directions

`Conforms` says which values a type describes, without depth and without order: it is
the least relation closed under one rule for each form of type. A reference has the
meaning that the environment in force at its place gives it.

A level whose parts give right verdicts gives right verdicts itself, for acceptance
(`level_sound`) and for refusal (`level_refutes`). So does a check with any number of
levels, unless it is given up (`upTo_verdict`).
-/

set_option autoImplicit false

namespace TypedJson.Check

/-- The basic kinds that a value, or a missing one, has. -/
inductive HasKind : Option Value → Basic → Prop where
  | void : HasKind none .void
  | null : HasKind (some .null) .null
  | bool (b : Bool) : HasKind (some (.bool b)) .bool
  | int (n : Number) : HasKind (some (.number n)) .int
  | float (n : Number) : HasKind (some (.number n)) .float
  | string (s : String) : HasKind (some (.string s)) .string

theorem basicAccepts_iff (sub : Basic) (term : Option Value) :
    basicAccepts sub term = true ↔ HasKind term sub := by
  constructor
  · intro h
    unfold basicAccepts at h
    split at h
    · exact .void
    · exact .null
    · exact .bool _
    · exact .int _
    · exact .float _
    · exact .string _
    · cases h
  · intro h
    cases h <;> rfl

theorem hasKind_none_iff {sub : Basic} : HasKind none sub ↔ sub = .void := by
  constructor
  · intro h
    cases h
    rfl
  · rintro rfl
    exact .void

/-- A value, or a missing one, conforms to a type in an environment. -/
inductive Conforms : Env → Option Value → Ty → Prop where
  | basic {env : Env} {term : Option Value} {sub : Basic} {note : Option Value} :
      HasKind term sub → Conforms env term (.basic sub note)
  | literal {env : Env} {v expected : Value} {note : Option Value} :
      v.agrees expected = true → Conforms env (some v) (.literal expected note)
  | union {env : Env} {term : Option Value} {alts : List Ty} {alt : Ty} {note : Option Value} :
      alt ∈ alts → Conforms env term alt → Conforms env term (.union alts note)
  | struct {env : Env} {members : List (String × Value)} {fields : List (String × Ty)}
      {note : Option Value} :
      (∀ name ty, (name, ty) ∈ fields → Conforms env (Entries.find? name members) ty) →
      Conforms env (some (.object members)) (.struct fields note)
  | map {env : Env} {members : List (String × Value)} {key value : Ty} {note : Option Value} :
      (∀ name v, (name, v) ∈ members → Conforms env (some (.string name)) key) →
      (∀ name v, (name, v) ∈ members → Conforms env (some v) value) →
      Conforms env (some (.object members)) (.map key value note)
  | list {env : Env} {items : List Value} {item : Ty} {note : Option Value} :
      (∀ v ∈ items, Conforms env (some v) item) →
      Conforms env (some (.array items)) (.list item note)
  | tuple {env : Env} {items : List Value} {parts : List Ty} {note : Option Value} :
      items.length = parts.length →
      (∀ (i : Nat) v ty, items[i]? = some v → parts[i]? = some ty → Conforms env (some v) ty) →
      Conforms env (some (.array items)) (.tuple parts note)
  | letIn {env : Env} {term : Option Value} {bindings : Bindings} {body : Ty}
      {note : Option Value} :
      Conforms (env.extend bindings) term body → Conforms env term (.letIn bindings body note)
  | ref {env : Env} {term : Option Value} {name : String} {meaning : Ty} {note : Option Value} :
      env.lookup name = some meaning → Conforms env term meaning →
      Conforms env term (.ref name note)

section Inversion

variable {env : Env} {term : Option Value} {note : Option Value}

theorem conforms_basic_iff {sub : Basic} :
    Conforms env term (.basic sub note) ↔ HasKind term sub := by
  constructor
  · intro h
    cases h with
    | basic hkind => exact hkind
  · exact .basic

theorem conforms_literal_iff {expected : Value} :
    Conforms env term (.literal expected note) ↔
      ∃ v, term = some v ∧ v.agrees expected = true := by
  constructor
  · intro h
    cases h with
    | literal hagrees => exact ⟨_, rfl, hagrees⟩
  · rintro ⟨v, rfl, h⟩
    exact .literal h

theorem conforms_union_iff {alts : List Ty} :
    Conforms env term (.union alts note) ↔ ∃ alt ∈ alts, Conforms env term alt := by
  constructor
  · intro h
    cases h with
    | union hmem halt => exact ⟨_, hmem, halt⟩
  · rintro ⟨alt, hmem, h⟩
    exact .union hmem h

theorem conforms_struct_iff {fields : List (String × Ty)} :
    Conforms env term (.struct fields note) ↔ ∃ members, term = some (.object members) ∧
      ∀ field ∈ fields, Conforms env (Entries.find? field.1 members) field.2 := by
  constructor
  · intro h
    cases h with
    | struct hfields => exact ⟨_, rfl, fun field hmem => hfields field.1 field.2 hmem⟩
  · rintro ⟨members, rfl, h⟩
    exact .struct fun name ty hmem => h (name, ty) hmem

theorem conforms_map_iff {key value : Ty} :
    Conforms env term (.map key value note) ↔ ∃ members, term = some (.object members) ∧
      ∀ member ∈ members,
        Conforms env (some (.string member.1)) key ∧ Conforms env (some member.2) value := by
  constructor
  · intro h
    cases h with
    | map hkeys hvalues =>
        exact ⟨_, rfl, fun member hmem => ⟨hkeys _ _ hmem, hvalues _ _ hmem⟩⟩
  · rintro ⟨members, rfl, h⟩
    exact .map (fun name v hmem => (h (name, v) hmem).1) fun name v hmem => (h (name, v) hmem).2

theorem conforms_list_iff {item : Ty} :
    Conforms env term (.list item note) ↔
      ∃ items, term = some (.array items) ∧ ∀ v ∈ items, Conforms env (some v) item := by
  constructor
  · intro h
    cases h with
    | list hitems => exact ⟨_, rfl, hitems⟩
  · rintro ⟨items, rfl, h⟩
    exact .list h

theorem conforms_letIn_iff {bindings : Bindings} {body : Ty} :
    Conforms env term (.letIn bindings body note) ↔
      Conforms (env.extend bindings) term body := by
  constructor
  · intro h
    cases h with
    | letIn hbody => exact hbody
  · exact .letIn

theorem conforms_ref_iff {name : String} {meaning : Ty} (hname : env.lookup name = some meaning) :
    Conforms env term (.ref name note) ↔ Conforms env term meaning := by
  constructor
  · intro h
    cases h with
    | ref hother hmeaning =>
        cases hname.symm.trans hother
        exact hmeaning
  · exact .ref hname

end Inversion

/-- What is accepted conforms. -/
def Sound (inner : Judge) : Prop :=
  ∀ env term ty, inner env term ty = .ok () → Conforms env term ty

/-- What is refused, and not given up, does not conform. -/
def Refutes (inner : Judge) : Prop :=
  ∀ env term ty failure, inner env term ty = .error failure → failure.isFatal = false →
    ¬ Conforms env term ty

/-- The pairs of two lists of one length are the entries with the same number. -/
theorem mem_zip_iff {α β : Type} {as : List α} {bs : List β} {a : α} {b : β} :
    (a, b) ∈ as.zip bs ↔ ∃ i : Nat, as[i]? = some a ∧ bs[i]? = some b := by
  simp [List.mem_iff_getElem?, List.getElem?_zip_eq_some]

/-- Every alternative of an exhausted trial was refused. -/
theorem refused_of_exhausted {check : Ty → Except Failure Unit} {alts : List Ty}
    {chain : List Failure} (h : tryEach check alts = .exhausted chain) {alt : Ty}
    (hmem : alt ∈ alts) : ∃ failure, check alt = .error failure ∧ failure.isFatal = false := by
  obtain ⟨failure, -, hrefused⟩ :=
    exists_right_of_forall₂ ((tryEach_eq_exhausted_iff check alts chain).1 h) hmem
  exact ⟨failure, hrefused⟩

variable {inner : Judge}

/-- A level of sound parts is sound. -/
theorem level_sound (hin : Sound inner) : Sound (level inner) := by
  intro env term ty h
  cases ty with
  | basic sub note =>
      apply Conforms.basic
      rw [← basicAccepts_iff]
      by_contra hno
      simp [level, hno] at h
  | literal expected note =>
      cases term with
      | none => simp [level] at h
      | some v =>
          apply Conforms.literal
          by_contra hno
          simp [level, hno] at h
  | ref name note =>
      cases hname : env.lookup name with
      | none => simp [level, hname] at h
      | some meaning =>
          simp only [level, hname] at h
          exact .ref hname (hin _ _ _ h)
  | letIn bindings body note => exact .letIn (hin _ _ _ h)
  | union alts note =>
      obtain ⟨alt, hmem, halt⟩ := exists_of_union_eq_ok h
      exact .union hmem (hin _ _ _ halt)
  | struct fields note =>
      obtain ⟨members, rfl, hfields⟩ := level_struct_eq_ok_iff.1 h
      exact .struct fun name ty hmem => hin _ _ _ (hfields (name, ty) hmem)
  | map key value note =>
      obtain ⟨members, rfl, hmembers⟩ := level_map_eq_ok_iff.1 h
      exact .map (fun name v hmem => hin _ _ _ (hmembers (name, v) hmem).1)
        (fun name v hmem => hin _ _ _ (hmembers (name, v) hmem).2)
  | list item note =>
      obtain ⟨items, rfl, hitems⟩ := level_list_eq_ok_iff.1 h
      exact .list fun v hmem => hin _ _ _ (hitems v hmem)
  | tuple parts note =>
      simp only [level] at h
      split at h
      · split at h
        · next hlength =>
            rw [every_eq_ok_iff] at h
            refine .tuple hlength fun i v ty hv hty => ?_
            exact hin _ _ _ (h (v, ty) (mem_zip_iff.2 ⟨i, hv, hty⟩))
        · cases h
      · cases h

/-- A level of refuting parts refutes: each rule needs parts that were refused. -/
theorem level_refutes (hin : Refutes inner) : Refutes (level inner) := by
  intro env term ty failure h hsettled hconf
  -- The last rule of the derivation names the parts that conform; the level has refused one.
  cases hconf with
  | basic hkind => simp [level, (basicAccepts_iff _ _).2 hkind] at h
  | literal hagrees => simp [level, hagrees] at h
  | ref hname hmeaning =>
      simp only [level, hname] at h
      exact hin _ _ _ _ h hsettled hmeaning
  | letIn hbody => exact hin _ _ _ _ h hsettled hbody
  | union hmem halt =>
      simp only [level] at h
      split at h
      · cases h
      · next hstop =>
          cases h
          obtain ⟨-, -, -, hfatal⟩ := exists_of_tryEach_eq_stopped hstop
          simp [hsettled] at hfatal
      · next hexhausted =>
          obtain ⟨other, hrefused, hother⟩ := refused_of_exhausted hexhausted hmem
          exact hin _ _ _ _ hrefused hother halt
  | struct hfields =>
      obtain ⟨field, hmem, hfield⟩ := exists_of_every_eq_error h
      exact hin _ _ _ _ hfield hsettled (hfields field.1 field.2 hmem)
  | map hkeys hvalues =>
      obtain ⟨member, hmem, hmember⟩ := exists_of_every_eq_error h
      rcases memberCheck_eq_error hmember with hkey | ⟨-, hvalue⟩
      · exact hin _ _ _ _ hkey hsettled (hkeys member.1 member.2 hmem)
      · exact hin _ _ _ _ hvalue hsettled (hvalues member.1 member.2 hmem)
  | list hitems =>
      obtain ⟨v, hmem, hv⟩ := exists_of_every_eq_error h
      exact hin _ _ _ _ hv hsettled (hitems v hmem)
  | tuple hlength hparts =>
      simp only [level, hlength, if_true] at h
      obtain ⟨⟨v, ty⟩, hmem, hpair⟩ := exists_of_every_eq_error h
      obtain ⟨i, hv, hty⟩ := mem_zip_iff.1 hmem
      exact hin _ _ _ _ hpair hsettled (hparts i v ty hv hty)

theorem checkAt_sound (limit : UInt64) (levels : Nat) : Sound (checkAt limit levels) := by
  induction levels with
  | zero =>
      intro env term ty h
      cases h
  | succ levels ih => exact level_sound ih

theorem checkAt_refutes (limit : UInt64) (levels : Nat) : Refutes (checkAt limit levels) := by
  induction levels with
  | zero =>
      intro env term ty failure h hsettled
      cases h
      simp [Failure.isFatal] at hsettled
  | succ levels ih => exact level_refutes ih

/-- What conforms is accepted by every check that is not given up. -/
theorem Conforms.checkAt_eq_ok {limit : UInt64} {levels : Nat} {env : Env} {term : Option Value}
    {ty : Ty} (h : Conforms env term ty) (hsettled : Settled (checkAt limit levels env term ty)) :
    checkAt limit levels env term ty = .ok () := by
  cases hcheck : checkAt limit levels env term ty with
  | ok _ => rfl
  | error failure =>
      rw [hcheck] at hsettled
      exact absurd h (checkAt_refutes limit levels env term ty failure hcheck hsettled)

/-- Verdicts are right. What is accepted conforms, and what is refused by any failure but
the depth limit does not. -/
theorem upTo_verdict (limit : UInt64) (env : Env) (term : Option Value) (ty : Ty) :
    (upTo limit env term ty = .ok () → Conforms env term ty) ∧
    ∀ failure, upTo limit env term ty = .error failure →
      (∀ depth, failure ≠ .recursionLimit depth) → ¬ Conforms env term ty := by
  refine ⟨checkAt_sound limit _ env term ty, ?_⟩
  intro failure h hlimit
  apply checkAt_refutes limit _ env term ty failure h
  by_contra hfatal
  obtain ⟨depth, hdepth⟩ := (isFatal_iff failure).1 (by simpa using hfatal)
  exact hlimit depth hdepth

/-- Lists built from pairs: a list with one head conforms, a null does not. -/
theorem upTo_verdict_pairs :
    let pairs : Ty := .letIn [("list", .union [.tuple [] none,
      .struct [("head", .basic .int none), ("tail", .ref "list" none)] none] none)]
      (.ref "list" none) none
    let one : Value := .object [("head", .number (.ofUInt64 1)), ("tail", .array [])]
    Conforms .empty (some one) pairs ∧ ¬ Conforms .empty (some .null) pairs := by
  refine ⟨(upTo_verdict 8 _ _ _).1 (by decide), ?_⟩
  exact (upTo_verdict 8 _ _ _).2 _ rfl (by simp)

end TypedJson.Check
