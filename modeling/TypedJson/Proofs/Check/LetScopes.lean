import TypedJson.Proofs.Check.Flattening
import TypedJson.Proofs.Check.Settling

/-!
# Bindings of a let and bindings of the environment

A let takes one level and brings its bindings into force for its body. So a check of the let with
one level more is the check of the body in the environment that has the bindings already, and two
lets one inside the other are one let of the bindings of both, the inner ones written into the
outer ones (`checkGiven_letIn`).

Two facts carry this. The limit of a check is seen in one place only, the failure of a check that is
given up (`checkAt_oneMore`): with the same levels left, two limits give the same result, but for
the limit that it names. And two scopes are alike to the one scope that they are put together to,
in what names mean and in the order in which an unknown name reports them (`Env.alike_insertAll`).
-/

set_option autoImplicit false

namespace TypedJson

namespace Env

/-- Two scopes are alike to the one that they make together, the inner written into the
outer. -/
theorem alike_insertAll (env : Env) {outer inner : Bindings} (houter : Entries.Distinct outer)
    (hinner : Entries.Distinct inner) :
    ((env.extend outer).extend inner).Alike (env.extend (Entries.insertAll outer inner)) where
  lookup := by
    intro name
    change lookupIn name (inner :: outer :: env.scopes) =
      lookupIn name (Entries.insertAll outer inner :: env.scopes)
    simp only [lookupIn]
    rw [Entries.find?_insertAll hinner]
    cases Entries.find? name inner with
    | none => rfl
    | some meaning => rfl
  snapshot := (Entries.insertAll_insertAll houter).symm

end Env

namespace Check

/-- The same result, but for the limit of a check that was given up, which is one larger. -/
def oneMore : Except Failure Unit → Except Failure Unit
  | .error (.recursionLimit limit) => .error (.recursionLimit (limit + 1))
  | result => result

theorem oneMore_of_settled {result : Except Failure Unit} (h : Settled result) :
    oneMore result = result := by
  cases result with
  | ok _ => rfl
  | error failure =>
      cases failure with
      | recursionLimit limit => cases h
      | _ => rfl

/-- A limit is seen only where a check is given up. -/
theorem checkAt_oneMore (limit : UInt64) (levels : Nat) (env : Env) (term : Option Value)
    (ty : Ty) :
    checkAt (limit + 1) levels env term ty = oneMore (checkAt limit levels env term ty) := by
  have hsame := checkAt_of_settled limit (limit + 1) (Nat.le_refl levels) env term ty
  have hback := checkAt_of_settled (limit + 1) limit (Nat.le_refl levels) env term ty
  by_cases h : Settled (checkAt limit levels env term ty)
  · rw [hsame h, oneMore_of_settled h]
  · -- With the same levels left, a check is given up under both limits or under neither.
    have hother : ¬ Settled (checkAt (limit + 1) levels env term ty) := by
      intro hsettled
      rw [hback hsettled] at h
      exact h hsettled
    rw [checkAt_of_not_settled h, checkAt_of_not_settled hother]
    rfl

/-! ## One level for each let -/

section Let

variable {maxDepth : UInt64} (hbound : maxDepth.toNat + 1 < UInt64.size)

include hbound

theorem toNat_succ : (maxDepth + 1).toNat = maxDepth.toNat + 1 := by
  rw [UInt64.toNat_add]
  exact Nat.mod_eq_of_lt hbound

/-- The body of a let is checked one level further down. -/
theorem upTo_letIn (env : Env) (term : Option Value) (bindings : Bindings) (body : Ty)
    (note : Option Value) :
    upTo (maxDepth + 1) env term (.letIn bindings body note) =
      oneMore (upTo maxDepth (env.extend bindings) term body) := by
  rw [upTo, toNat_succ hbound]
  exact checkAt_oneMore maxDepth (maxDepth.toNat + 1) (env.extend bindings) term body

/-- Two lets take one level more than the let of the bindings of both. -/
theorem upTo_letIn_letIn (env : Env) (term : Option Value) {outer inner : Bindings}
    (houter : Entries.Distinct outer) (hinner : Entries.Distinct inner) (body : Ty)
    (note innerNote bothNote : Option Value) :
    upTo (maxDepth + 1) env term (.letIn outer (.letIn inner body innerNote) note) =
      oneMore (upTo maxDepth env term (.letIn (Entries.insertAll outer inner) body bothNote)) := by
  have halike := env.alike_insertAll houter hinner
  calc upTo (maxDepth + 1) env term (.letIn outer (.letIn inner body innerNote) note)
      = oneMore (upTo maxDepth (env.extend outer) term (.letIn inner body innerNote)) :=
        upTo_letIn hbound env term outer _ note
    _ = oneMore (checkAt maxDepth maxDepth.toNat ((env.extend outer).extend inner) term body) :=
        rfl
    _ = oneMore (checkAt maxDepth maxDepth.toNat (env.extend (Entries.insertAll outer inner)) term
          body) := by rw [checkAt_of_alike maxDepth maxDepth.toNat halike term body]

end Let

/-- Bindings may be given by the environment or by a let. A checker that goes one deeper gives for a
let the result of its body in the environment with the bindings of the let, and for two lets the
result of the one let of the bindings of both. The results are the same down to the bindings that an
unknown name is reported with, but for the limit of a check that is given up. Beyond the depth of
the first try this takes a work area. -/
theorem checkGiven_letIn (maxDepth : UInt64) (hbound : maxDepth.toNat + 1 < UInt64.size)
    (room : Bool) (hroom : Checker.shallow < maxDepth + 1 → room = true) (env : Env)
    (term : Option Value) (body : Ty) :
    (∀ bindings note, Checker.checkGiven room ⟨maxDepth + 1⟩ env term (.letIn bindings body note) =
      oneMore (Checker.checkGiven room ⟨maxDepth⟩ (env.extend bindings) term body)) ∧
    ∀ outer inner note innerNote bothNote, Entries.Distinct outer → Entries.Distinct inner →
      Checker.checkGiven room ⟨maxDepth + 1⟩ env term
          (.letIn outer (.letIn inner body innerNote) note) =
        oneMore (Checker.checkGiven room ⟨maxDepth⟩ env term
          (.letIn (Entries.insertAll outer inner) body bothNote)) := by
  have hless : Checker.shallow < maxDepth → room = true := by
    intro hlt
    apply hroom
    rw [UInt64.lt_iff_toNat_lt] at hlt ⊢
    rw [toNat_succ hbound]
    exact Nat.lt_succ_of_lt hlt
  constructor
  · intro bindings note
    rw [Checker.checkGiven_of_room hroom, Checker.checkGiven_of_room hless]
    exact upTo_letIn hbound env term bindings body note
  · intro outer inner note innerNote bothNote houter hinner
    rw [Checker.checkGiven_of_room hroom, Checker.checkGiven_of_room hless]
    exact upTo_letIn_letIn hbound env term houter hinner body note innerNote bothNote

/-- At the depth of the first try the one check is run again and the other is not. An inner let
binds `a` anew; the alternatives fail for what `a` means and for a name that is unknown, with the
bindings of both lets. A name that means itself is given up, with a limit that is one larger. -/
theorem checkGiven_letIn_nested :
    let flag : Ty := .basic .bool none
    let text : Ty := .basic .string none
    let outer : Bindings := [("a", .ref "a" none), ("b", text)]
    let inner : Bindings := [("c", flag), ("a", flag)]
    let both : Bindings := [("a", flag), ("b", text), ("c", flag)]
    let lists (t : Ty) : Ty := Nat.repeat (fun t => Ty.list t none) 61 t
    let value : Option Value := some (Nat.repeat (fun v => Value.array [v]) 61 .null)
    let env : Env := .root [("d", text)]
    let ty : Ty := .union [.ref "a" none, .ref "z" none] none
    let failure : Failure := .unionExhausted ty (some .null)
      [.mismatch flag (some .null), .unknownRef "z" (("d", text) :: both)]
    Entries.Distinct outer ∧ Entries.Distinct inner ∧
    Checker.checkGiven true ⟨64⟩ env value (.letIn both (lists ty) none) = .error failure ∧
    Checker.checkGiven true ⟨65⟩ env value
      (.letIn outer (.letIn inner (lists ty) none) none) = .error failure ∧
    Checker.checkGiven true ⟨64⟩ (env.extend outer) value (lists (.ref "a" none)) =
      .error (.recursionLimit 64) ∧
    Checker.checkGiven true ⟨65⟩ env value (.letIn outer (lists (.ref "a" none)) none) =
      .error (.recursionLimit 65) := by
  intro flag text outer inner both lists value env ty failure
  have houter : Entries.Distinct outer := by decide +zetaReduce
  have hinner : Entries.Distinct inner := by decide +zetaReduce
  have hboth : Checker.checkGiven true ⟨64⟩ env value (.letIn both (lists ty) none) =
      .error failure := by decide +kernel +zetaReduce
  have hloop : Checker.checkGiven true ⟨64⟩ (env.extend outer) value (lists (.ref "a" none)) =
      .error (.recursionLimit 64) := by decide +kernel +zetaReduce
  refine ⟨houter, hinner, hboth, ?_, hloop, ?_⟩
  · have hlets := (checkGiven_letIn 64 (by decide) true (fun _ => rfl) env value (lists ty)).2
      outer inner none none none houter hinner
    have hsame : Entries.insertAll outer inner = both := by decide +zetaReduce
    rw [hsame, hboth] at hlets
    exact hlets
  · have hlet := (checkGiven_letIn 64 (by decide) true (fun _ => rfl) env value
      (lists (.ref "a" none))).1 outer none
    rw [hloop] at hlet
    exact hlet

end Check

end TypedJson
