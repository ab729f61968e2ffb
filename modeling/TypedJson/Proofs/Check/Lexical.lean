import TypedJson.Proofs.Check.Reach

/-!
# Names that mean the same everywhere

A check resolves a reference in the scopes that are in force where it meets the reference,
and goes on in these scopes. `Lexical.checkAt` is the same check, except that it goes on
where the name was bound. The two differ when a let in between binds a name that the
binding uses. They agree, failures included, when no name has two meanings and every
reference is inside a let that binds its name (`checkGiven_eq_lexical`).

The scopes of the second check are among those of the first at every step (`Tracks`), so
that a name which has a meaning in the one has a meaning in the other; and no name has two.
-/

set_option autoImplicit false

namespace TypedJson

namespace Lexical

open Check

/-- One level of a check that leaves what a reference means to the environment in which its
name was bound. All else is as in `Check.level`. -/
def level (inner : Judge) (env : Env) (term : Option Value) (ty : Ty) : Except Failure Unit :=
  match ty with
  | .ref name _ =>
      match env.closure name with
      | some (meaning, home) => inner home term meaning
      | none => .error (.unknownRef name env.snapshot)
  | _ => Check.level inner env term ty

/-- Checks a value with so many levels left. -/
def checkAt (limit : UInt64) : (levels : Nat) → Judge
  | 0, _, _, _ => .error (.recursionLimit limit)
  | levels + 1, env, term, ty => level (checkAt limit levels) env term ty

/-- Checks a value, or a missing one, in an environment, as `Checker.checkGiven` does. -/
def checkGiven (room : Bool) (checker : Checker) (env : Env) (term : Option Value) (ty : Ty) :
    Except Failure Unit :=
  checker.inRuns room fun limit => checkAt limit (limit.toNat + 1) env term ty

/-- No name has two meanings in reach of a check. In the empty environment, this is about the
bindings of all lets of the type. -/
def Unambiguous (env : Env) (ty : Ty) : Prop :=
  ∀ binding ∈ bindingsInReach env ty, ∀ other ∈ bindingsInReach env ty,
    binding.1 = other.1 → binding.2 = other.2

instance (env : Env) (ty : Ty) : Decidable (Unambiguous env ty) :=
  inferInstanceAs (Decidable (∀ binding ∈ bindingsInReach env ty,
    ∀ other ∈ bindingsInReach env ty, binding.1 = other.1 → binding.2 = other.2))

theorem Unambiguous.mono {env env' : Env} {ty ty' : Ty} (h : Unambiguous env ty)
    (hle : bindingsInReach env' ty' ⊆ bindingsInReach env ty) : Unambiguous env' ty' := by
  intro binding hbinding other hother
  exact h binding (hle hbinding) other (hle hother)

/-- Where no name has two meanings, every binding in force is what its name means. Another
scope that binds the name may come first, but it can only say the same. -/
theorem Unambiguous.lookup {env : Env} {ty meaning : Ty} {name : String}
    (h : Unambiguous env ty) (hbinding : (name, meaning) ∈ env.scopes.flatten) :
    env.lookup name = some meaning := by
  have hname : name ∈ env.names := List.mem_map.2 ⟨_, hbinding, rfl⟩
  obtain ⟨found, home, hclosure⟩ := Env.exists_closure_of_mem hname
  have hlookup := Env.lookup_of_closure hclosure
  have heq : found = meaning := by
    apply h (name, found) _ (name, meaning) _ rfl
    · exact mem_bindingsInReach.2 (Or.inl (mem_flatten_of_lookup hlookup))
    · exact mem_bindingsInReach.2 (Or.inl hbinding)
  rw [hlookup, heq]

/-- The environments of the two checks of a type: all scopes of `lex` are in force in
`dyn`, and `lex` has a meaning for every name that is needed. -/
structure Tracks (dyn lex : Env) (ty : Ty) : Prop where
  unambiguous : Unambiguous dyn ty
  inForce : lex.scopes ⊆ dyn.scopes
  closed : lex.Closed
  inScope : ty.freeNames ⊆ lex.names

namespace Tracks

variable {dyn lex dyn' lex' : Env} {term term' : Option Value} {ty ty' : Ty}

theorem empty (hunambiguous : Unambiguous .empty ty) (hclosed : ty.freeNames = []) :
    Tracks .empty .empty ty where
  unambiguous := hunambiguous
  inForce := List.Subset.refl _
  closed := trivial
  inScope := by
    rw [hclosed]
    exact List.nil_subset _

/-- Going into a type keeps the two environments together. -/
theorem consults (h : Tracks dyn lex ty) (hdyn : Consults dyn term ty dyn' term' ty')
    (hlex : Consults lex term ty lex' term' ty') : Tracks dyn' lex' ty' := by
  obtain ⟨hclosed, hinScope⟩ := hlex.closed h.closed h.inScope
  refine ⟨?_, ?_, hclosed, hinScope⟩
  · exact h.unambiguous.mono hdyn.bindingsInReach_subset
  · rw [hdyn.env_eq, hlex.env_eq]
    cases ty with
    | letIn bindings body note => exact List.cons_subset_cons _ h.inForce
    | _ => exact h.inForce

/-- A name means the same in both environments, and going back to where it was bound keeps
them together. -/
theorem ref {name : String} {note : Option Value} (h : Tracks dyn lex (.ref name note)) :
    ∃ meaning home, dyn.lookup name = some meaning ∧ lex.closure name = some (meaning, home) ∧
      Tracks dyn home meaning := by
  have hname : name ∈ lex.names := h.inScope (List.mem_singleton.2 rfl)
  obtain ⟨meaning, home, hclosure⟩ := Env.exists_closure_of_mem hname
  obtain ⟨scope, outer, hhome, hsuffix, hfind⟩ := Env.exists_of_closure hclosure
  have hinForce : home.scopes ⊆ dyn.scopes := by
    rw [hhome]
    exact List.Subset.trans hsuffix.subset h.inForce
  have hbinding : (name, meaning) ∈ dyn.scopes.flatten :=
    List.mem_flatten.2 ⟨scope, hinForce (hhome ▸ List.mem_cons_self), Entries.mem_of_find? hfind⟩
  have hlookup : dyn.lookup name = some meaning := h.unambiguous.lookup hbinding
  obtain ⟨hclosed, hinScope⟩ := h.closed.closure hclosure
  have hstep : Consults dyn none (.ref name note) dyn none meaning := .ref hlookup
  exact ⟨meaning, home, hlookup, hclosure, h.unambiguous.mono hstep.bindingsInReach_subset,
    hinForce, hclosed, hinScope⟩

end Tracks

/-- The two checks agree as long as their environments stay together. The induction is on the
levels; a reference is the one place where the checks go on in different environments. -/
theorem checkAt_of_tracks (limit : UInt64) (levels : Nat) {dyn lex : Env} {term : Option Value}
    {ty : Ty} (h : Tracks dyn lex ty) :
    Check.checkAt limit levels dyn term ty = checkAt limit levels lex term ty := by
  induction levels generalizing dyn lex term ty with
  | zero => rfl
  | succ levels ih =>
      cases ty with
      | ref name note =>
          obtain ⟨meaning, home, hlookup, hclosure, hmeaning⟩ := h.ref
          simp only [Check.checkAt, Check.level, hlookup, checkAt, level, hclosure]
          exact ih hmeaning
      | _ =>
          -- For all other forms the two levels are the same definition.
          apply level_congr
          · rintro _ _ ⟨⟩
          · intro _ _ _ _ hdyn hlex
            exact ih (h.consults hdyn hlex)

/-- With one meaning for each name, it does not matter where a reference is resolved. For
every type that has no free names and binds no name to two types, the checker's result is
that of the checker which goes back to where each name was bound: on every value, at every
depth, and in all failures. -/
theorem checkGiven_eq_lexical (ty : Ty) (hunambiguous : Unambiguous .empty ty)
    (hclosed : ty.freeNames = []) (term : Option Value) :
    (∀ limit levels, Check.checkAt limit levels .empty term ty =
      checkAt limit levels .empty term ty) ∧
    (∀ (checker : Checker) (room : Bool), checker.checkGiven room .empty term ty =
      checkGiven room checker .empty term ty) ∧
    ∀ checker : Checker, checker.check term ty =
      checkGiven checker.hasRoom checker .empty term ty := by
  have htracks := Tracks.empty hunambiguous hclosed
  have hgiven : ∀ (checker : Checker) (room : Bool), checker.checkGiven room .empty term ty =
      checkGiven room checker .empty term ty := by
    intro checker room
    rw [Checker.checkGiven, checkGiven]
    congr 1
    funext limit
    exact checkAt_of_tracks limit _ htracks
  exact ⟨fun limit levels => checkAt_of_tracks limit levels htracks, hgiven,
    fun checker => hgiven checker checker.hasRoom⟩

/-- Each tree that is reached through a node opens the let of the node once more, so that
the first check stacks up scopes where the second goes back to one. -/
theorem checkGiven_eq_lexical_reentered :
    let node : Ty := .struct [("kids", .list (.ref "tree" none) none)] none
    let tree : Ty :=
      .letIn [("node", node)] (.union [.basic .null none, .ref "node" none] none) none
    let ty : Ty := .letIn [("tree", tree)] (.ref "tree" none) none
    let leaf : Value := .object [("kids", .array [.bool true])]
    let term : Option Value := some (.object [("kids", .array [.null, leaf])])
    Unambiguous .empty ty ∧ ty.freeNames = [] ∧
    Checker.check {} term ty = checkGiven (Checker.hasRoom {}) {} .empty term ty ∧
    Settled (Checker.check {} term ty) ∧
    Checker.checkGiven false ⟨16⟩ .empty term ty = checkGiven false ⟨16⟩ .empty term ty ∧
    ¬ Settled (Checker.checkGiven false ⟨16⟩ .empty term ty) := by
  intro node tree ty leaf term
  have hunambiguous : Unambiguous .empty ty := by decide +kernel +zetaReduce
  have hclosed : ty.freeNames = [] := by decide +kernel +zetaReduce
  have hsettled : Settled (Checker.check {} term ty) := by decide +kernel +zetaReduce
  have hgaveUp : ¬ Settled (Checker.checkGiven false ⟨16⟩ .empty term ty) := by
    decide +kernel +zetaReduce
  have hagree := checkGiven_eq_lexical ty hunambiguous hclosed term
  exact ⟨hunambiguous, hclosed, hagree.2.2 {}, hsettled, hagree.2.1 ⟨16⟩ false, hgaveUp⟩

/- Where the inner let binds `x` anew, the meaning of `y` changes under the first check only. -/
example :
    let ty : Ty :=
      .letIn [("x", .basic .null none)]
        (.letIn [("y", .ref "x" none)]
          (.letIn [("x", .basic .bool none)] (.ref "y" none) none) none) none
    ¬ Unambiguous .empty ty ∧ ty.freeNames = [] ∧
    checkGiven true {} .empty (some .null) ty = .ok () ∧
    Checker.check {} (some .null) ty = .error (.mismatch (.basic .bool none) (some .null)) := by
  decide +kernel

end Lexical

end TypedJson
