import TypedJson.Proofs.Check.Settling
import TypedJson.Proofs.Type
import TypedJson.Proofs.Value.Reordered

/-!
# Acceptance does not depend on order

Alternatives, fields, bindings and the members of objects come in an order, and a check goes
through them in that order: another order can lead to another first failure, or to another
alternative that accepts. It does not change whether a value is accepted, as long as neither
check is given up (`checkGiven_ok_iff_of_reordered`).

The two checks have no steps in common, so they are compared through what they mean: `Conforms`
speaks of every field and of some alternative, and not of their order. What conforms still does
after reordering the value, the type and the environment (`Conforms.of_reordered`).
-/

set_option autoImplicit false

namespace TypedJson

/-- The alternatives of unions, the fields of structs and the bindings of lets are put in
another order, at any depth, and so are the members of objects inside literals. -/
inductive Ty.Reordered : Ty → Ty → Prop where
  | basic (sub : Basic) (note : Option Value) : Reordered (.basic sub note) (.basic sub note)
  | literal {value value' : Value} (note : Option Value) :
      value.Reordered value' → Reordered (.literal value note) (.literal value' note)
  | union {alts between alts' : List Ty} (note : Option Value) :
      alts.Perm between → List.Forall₂ Reordered between alts' →
      Reordered (.union alts note) (.union alts' note)
  | struct {fields between fields' : List (String × Ty)} (note : Option Value) :
      fields.Perm between → List.Forall₂ (Entries.Named Reordered) between fields' →
      Reordered (.struct fields note) (.struct fields' note)
  | map {key key' value value' : Ty} (note : Option Value) :
      Reordered key key' → Reordered value value' →
      Reordered (.map key value note) (.map key' value' note)
  | list {item item' : Ty} (note : Option Value) :
      Reordered item item' → Reordered (.list item note) (.list item' note)
  | tuple {items items' : List Ty} (note : Option Value) :
      List.Forall₂ Reordered items items' → Reordered (.tuple items note) (.tuple items' note)
  | letIn {bindings between bindings' : List (String × Ty)} {body body' : Ty}
      (note : Option Value) :
      Entries.Distinct bindings → bindings.Perm between →
      List.Forall₂ (Entries.Named Reordered) between bindings' → Reordered body body' →
      Reordered (.letIn bindings body note) (.letIn bindings' body' note)
  | ref (name : String) (note : Option Value) : Reordered (.ref name note) (.ref name note)

/-- The bindings of a scope are put in another order, and each type is reordered. -/
def ScopeReordered (scope scope' : Bindings) : Prop :=
  Entries.Distinct scope ∧ ∃ between, scope.Perm between ∧
    List.Forall₂ (Entries.Named Ty.Reordered) between scope'

/-- Every scope is reordered; the scopes keep their places. -/
def Env.Reordered (env env' : Env) : Prop :=
  List.Forall₂ ScopeReordered env.scopes env'.scopes

namespace Ty.Reordered

/-- Named types that are reordered one by one can be reordered back. -/
theorem named_back {named : List (String × Ty)}
    (h : ∀ entry ∈ named, ∀ {t : Ty}, Ty.Reordered entry.2 t → Ty.Reordered t entry.2) :
    ∀ entry ∈ named, ∀ other, Entries.Named Ty.Reordered entry other →
      Entries.Named Ty.Reordered other entry := by
  rintro _ hmem _ ⟨name, ht⟩
  exact .intro name (h _ hmem ht)

theorem symm {t u : Ty} (h : Ty.Reordered t u) : Ty.Reordered u t := by
  induction t using Ty.induction generalizing u with
  | basic sub note =>
      cases h
      exact .basic sub note
  | literal value note =>
      cases h with
      | literal _ hvalue => exact .literal note hvalue.symm
  | union alts note ih =>
      cases h with
      | union _ hperm halts =>
          obtain ⟨other, hother, hback⟩ :=
            exists_perm_of_forall₂ hperm halts fun t ht u htu => ih t ht htu
          exact .union note hother hback
  | struct fields note ih =>
      cases h with
      | struct _ hperm hfields =>
          obtain ⟨other, hother, hback⟩ := exists_perm_of_forall₂ hperm hfields (named_back ih)
          exact .struct note hother hback
  | map key value note ihkey ihvalue =>
      cases h with
      | map _ hkey hvalue => exact .map note (ihkey hkey) (ihvalue hvalue)
  | list item note ih =>
      cases h with
      | list _ hitem => exact .list note (ih hitem)
  | tuple items note ih =>
      cases h with
      | tuple _ hitems =>
          have hboth := (List.forall₂_and_left items _).2 ⟨ih, hitems⟩
          apply Ty.Reordered.tuple
          apply List.Forall₂.flip
          exact hboth.imp fun t u htu => htu.1 htu.2
  | letIn bindings body note ihbindings ihbody =>
      cases h with
      | letIn _ hdistinct hperm hbindings hbody =>
          obtain ⟨other, hother, hback⟩ :=
            exists_perm_of_forall₂ hperm hbindings (named_back ihbindings)
          exact .letIn note (hdistinct.of_perm_named hperm hbindings) hother hback (ihbody hbody)
  | ref name note =>
      cases h
      exact .ref name note

end Ty.Reordered

namespace Env.Reordered

variable {env env' : Env}

theorem symm (h : env.Reordered env') : env'.Reordered env := by
  apply List.Forall₂.flip
  apply h.imp
  rintro scope scope' ⟨hdistinct, between, hperm, hscope⟩
  obtain ⟨other, hother, hback⟩ := exists_perm_of_forall₂ hperm hscope
    (Ty.Reordered.named_back fun _ _ => Ty.Reordered.symm)
  exact ⟨hdistinct.of_perm_named hperm hscope, other, hother, hback⟩

/-- A name means the same up to order, or nothing in either environment. -/
theorem lookup (h : env.Reordered env') (name : String) :
    Option.Rel Ty.Reordered (env.lookup name) (env'.lookup name) := by
  obtain ⟨scopes⟩ := env
  obtain ⟨scopes'⟩ := env'
  change Option.Rel Ty.Reordered (lookupIn name scopes) (lookupIn name scopes')
  change List.Forall₂ ScopeReordered scopes scopes' at h
  induction h with
  | nil => exact .none
  | @cons scope scope' _ _ hscope _ ih =>
      obtain ⟨hdistinct, between, hperm, hpairs⟩ := hscope
      have hfound := Entries.find?_of_perm_named hdistinct hperm hpairs name
      simp only [lookupIn]
      generalize Entries.find? name scope = found at hfound ⊢
      generalize Entries.find? name scope' = found' at hfound ⊢
      cases hfound with
      | some ht => exact .some ht
      | none => exact ih

end Env.Reordered

namespace Check

variable {env env' : Env} {term term' : Option Value} {ty ty' : Ty}

/-- Basic kinds look at no order: an array and an object are of none of them. -/
theorem basicAccepts_of_reordered (sub : Basic) (h : Option.Rel Value.Reordered term term') :
    basicAccepts sub term = basicAccepts sub term' := by
  cases h with
  | none => rfl
  | some hv => cases hv <;> cases sub <;> rfl

/-- What conforms still does when everything is put in another order. The induction is on the
derivation: each rule is applied again, to the parts where they stand now. -/
theorem Conforms.of_reordered (h : Conforms env term ty) (henv : env.Reordered env')
    (hterm : Option.Rel Value.Reordered term term') (hty : ty.Reordered ty') :
    Conforms env' term' ty' := by
  induction h generalizing env' term' ty' with
  | basic hkind =>
      cases hty
      apply Conforms.basic
      rwa [← basicAccepts_iff, ← basicAccepts_of_reordered _ hterm, basicAccepts_iff]
  | literal hagrees =>
      cases hty with
      | literal _ hexpected =>
          cases hterm with
          | some hv => exact .literal (Value.agrees_of_reordered hv hexpected hagrees)
  | union hmem _ ih =>
      cases hty with
      | union _ hperm halts =>
          obtain ⟨alt', hmem', halt⟩ := exists_right_of_forall₂ halts (hperm.mem_iff.1 hmem)
          exact .union hmem' (ih henv hterm halt)
  | struct _ ih =>
      cases hty with
      | struct _ hperm hfields =>
          obtain ⟨hdistinct, between, members', rfl, hmperm, hmembers⟩ :=
            Value.exists_object_of_rel hterm
          apply Conforms.struct
          intro name ty' hmem'
          obtain ⟨ty, hmem, ht⟩ := Entries.exists_of_perm_named hperm hfields hmem'
          have hfound := Entries.find?_of_perm_named hdistinct hmperm hmembers name
          exact ih name ty hmem henv hfound ht
  | map _ _ ihkey ihvalue =>
      cases hty with
      | map _ hkey hvalue =>
          obtain ⟨-, between, members', rfl, hmperm, hmembers⟩ := Value.exists_object_of_rel hterm
          apply Conforms.map
          · intro name v' hmem'
            obtain ⟨v, hmem, -⟩ := Entries.exists_of_perm_named hmperm hmembers hmem'
            exact ihkey name v hmem henv (.some (.string name)) hkey
          · intro name v' hmem'
            obtain ⟨v, hmem, hv⟩ := Entries.exists_of_perm_named hmperm hmembers hmem'
            exact ihvalue name v hmem henv (.some hv) hvalue
  | list _ ih =>
      cases hty with
      | list _ hitem =>
          obtain ⟨items', rfl, hitems⟩ := Value.exists_array_of_rel hterm
          apply Conforms.list
          intro v' hmem'
          obtain ⟨v, hmem, hv⟩ := exists_left_of_forall₂ hitems hmem'
          exact ih v hmem henv (.some hv) hitem
  | tuple hlength _ ih =>
      cases hty with
      | tuple _ hparts =>
          obtain ⟨items', rfl, hitems⟩ := Value.exists_array_of_rel hterm
          apply Conforms.tuple
          · rw [← hitems.length_eq, hlength, hparts.length_eq]
          · intro i v' ty' hv' hty'
            obtain ⟨hi, rfl⟩ := List.getElem?_eq_some_iff.1 hv'
            obtain ⟨hj, rfl⟩ := List.getElem?_eq_some_iff.1 hty'
            have hitem := hitems.get (hitems.length_eq ▸ hi) hi
            have hpart := hparts.get (hparts.length_eq ▸ hj) hj
            exact ih i _ _ (List.getElem?_eq_getElem _) (List.getElem?_eq_getElem _) henv
              (.some hitem) hpart
  | letIn _ ih =>
      cases hty with
      | letIn _ hdistinct hperm hbindings hbody =>
          apply Conforms.letIn
          apply ih _ hterm hbody
          exact .cons ⟨hdistinct, _, hperm, hbindings⟩ henv
  | @ref _ _ name _ _ hname _ ih =>
      cases hty with
      | ref _ _ =>
          have hfound := henv.lookup name
          rw [hname] at hfound
          obtain ⟨meaning', hname', hmeaning⟩ := exists_of_rel_some hfound
          exact .ref hname' (ih henv hterm hmeaning)

/-- Whether a value conforms does not depend on order. -/
theorem conforms_iff_of_reordered (henv : env.Reordered env')
    (hterm : Option.Rel Value.Reordered term term') (hty : ty.Reordered ty') :
    Conforms env term ty ↔ Conforms env' term' ty' := by
  constructor
  · intro h
    exact h.of_reordered henv hterm hty
  · intro h
    refine h.of_reordered henv.symm ?_ hty.symm
    cases hterm with
    | some hv => exact .some hv.symm
    | none => exact .none

/-- Acceptance does not depend on order. Alternatives, fields and the bindings of lets and scopes
may come in any order in the type and in the environment, and members in any order in the value and
in literals: if neither check is given up, one accepts exactly when the other does. -/
theorem checkGiven_ok_iff_of_reordered (henv : env.Reordered env')
    (hterm : Option.Rel Value.Reordered term term') (hty : ty.Reordered ty')
    (checker : Checker) (room : Bool)
    (hsettled : Settled (checker.checkGiven room env term ty))
    (hsettled' : Settled (checker.checkGiven room env' term' ty')) :
    checker.checkGiven room env term ty = .ok () ↔
      checker.checkGiven room env' term' ty' = .ok () := by
  rw [Checker.checkGiven_eq_ok_iff hsettled, Checker.checkGiven_eq_ok_iff hsettled']
  exact conforms_iff_of_reordered henv hterm hty

/-- A struct whose fields, alternatives and literal are turned around, with the bindings that it
uses, and a value that is turned around likewise. -/
theorem checkGiven_ok_iff_of_reordered_turned :
    let one : Value := .number (.ofUInt64 1)
    let pair : Value := .object [("a", one), ("b", .null)]
    let pair' : Value := .object [("b", .null), ("a", one)]
    let text : Ty := .basic .string none
    let nothing : Ty := .basic .null none
    let env : Env := .root [("text", text), ("other", nothing)]
    let env' : Env := .root [("other", nothing), ("text", text)]
    let ty : Ty := .letIn [("pair", .literal pair none), ("none", nothing)]
      (.struct [("x", .union [.ref "none" none, .ref "pair" none] none),
        ("y", .ref "text" none)] none) none
    let ty' : Ty := .letIn [("none", nothing), ("pair", .literal pair' none)]
      (.struct [("y", .ref "text" none),
        ("x", .union [.ref "pair" none, .ref "none" none] none)] none) none
    let term : Option Value := some (.object [("x", pair), ("y", .string "t")])
    let term' : Option Value := some (.object [("y", .string "t"), ("x", pair')])
    env.Reordered env' ∧ Option.Rel Value.Reordered term term' ∧ ty.Reordered ty' ∧
    Settled (Checker.checkGiven true {} env term ty) ∧
    Settled (Checker.checkGiven true {} env' term' ty') ∧
    Checker.checkGiven true {} env term ty = .ok () ∧
    Checker.checkGiven true {} env' term' ty' = .ok () := by
  intro one pair pair' text nothing env env' ty ty' term term'
  have hpair : pair.Reordered pair' :=
    .object (by decide) (.swap _ _ _)
      (.cons (.intro "b" .null) (.cons (.intro "a" (.number _)) .nil))
  have henv : env.Reordered env' :=
    .cons ⟨by decide, _, .swap _ _ _,
      .cons (.intro "other" (.basic .null none)) (.cons (.intro "text" (.basic .string none)) .nil)⟩
      .nil
  have hunion : (Ty.union [.ref "none" none, .ref "pair" none] none).Reordered
      (.union [.ref "pair" none, .ref "none" none] none) :=
    .union none (.swap _ _ _) (.cons (.ref "pair" none) (.cons (.ref "none" none) .nil))
  have hty : ty.Reordered ty' :=
    .letIn none (by decide) (.swap _ _ _)
      (.cons (.intro "none" (.basic .null none)) (.cons (.intro "pair" (.literal none hpair)) .nil))
      (.struct none (.swap _ _ _)
        (.cons (.intro "y" (.ref "text" none)) (.cons (.intro "x" hunion) .nil)))
  have hterm : Option.Rel Value.Reordered term term' :=
    .some (.object (by decide) (.swap _ _ _)
      (.cons (.intro "y" (.string "t")) (.cons (.intro "x" hpair) .nil)))
  have hsettled : Settled (Checker.checkGiven true {} env term ty) := by decide +zetaReduce
  have hsettled' : Settled (Checker.checkGiven true {} env' term' ty') := by decide +zetaReduce
  have hok : Checker.checkGiven true {} env term ty = .ok () := by decide +zetaReduce
  refine ⟨henv, hterm, hty, hsettled, hsettled', hok, ?_⟩
  exact (checkGiven_ok_iff_of_reordered henv hterm hty {} true hsettled hsettled').1 hok

/- A check that is given up may be spared by an alternative that comes before. -/
example :
    let env : Env := .root [("loop", .ref "loop" none)]
    Checker.checkGiven true ⟨8⟩ env (some .null)
      (.union [.basic .null none, .ref "loop" none] none) = .ok () ∧
    Checker.checkGiven true ⟨8⟩ env (some .null)
      (.union [.ref "loop" none, .basic .null none] none) = .error (.recursionLimit 8) := by
  decide

end Check

end TypedJson
