import TypedJson.Proofs.Check.Origin

/-!
# What stands in a tree of failures

The failures that a check returns form a tree: under the failure of a union stand those of its
alternatives. `checkGiven_accountedFor` says what each failure of the tree contains. A check
that was given up is the whole tree and never a part of one. Every other failure names a type
that was in reach and a value that was there to be checked, its type is of the form that can
report it, and a union has exactly one failure for each of its alternatives, in order.

All of it is kept from one level to the next: the types in reach only get fewer, and a level
goes on with a part of its value, with the name of a member as a text, or with nothing.
-/

set_option autoImplicit false

namespace TypedJson

/-- The value stands inside another one, or is that value itself. -/
inductive Value.Subvalue (whole : Value) : Value → Prop where
  | refl : Subvalue whole whole
  | item {items : List Value} {v : Value} :
      Subvalue whole (.array items) → v ∈ items → Subvalue whole v
  | member {members : List (String × Value)} {name : String} {v : Value} :
      Subvalue whole (.object members) → (name, v) ∈ members → Subvalue whole v

/-- The types that refuse a value by its shape. -/
def Ty.AsksShape : Ty → Prop
  | .basic .. | .struct .. | .map .. | .list .. | .tuple .. => True
  | .literal .. | .union .. | .letIn .. | .ref .. => False

namespace Check

/-- What there is to be checked in a value, or in a missing one: nothing, a value inside it, or
the name of a member of an object inside it, as a text. -/
inductive PartOf (whole : Option Value) : Option Value → Prop where
  | missing : PartOf whole none
  | inside {v w : Value} : whole = some v → v.Subvalue w → PartOf whole (some w)
  | name {v w : Value} {members : List (String × Value)} {name : String} :
      whole = some v → v.Subvalue (.object members) → (name, w) ∈ members →
      PartOf whole (some (.string name))

variable {env env' : Env} {term term' : Option Value} {ty ty' : Ty}

theorem PartOf.self (term : Option Value) : PartOf term term := by
  cases term with
  | none => exact .missing
  | some v => exact .inside rfl .refl

/-- What a level goes on with is part of what it was given. -/
theorem Consults.partOf {whole : Option Value} (h : Consults env term ty env' term' ty')
    (hpart : PartOf whole term) : PartOf whole term' := by
  -- A name is a text, so an array or an object to go into stands inside the whole value.
  cases h with
  | ref hname => exact hpart
  | letIn => exact hpart
  | union hmem => exact hpart
  | @field members fields name ty' note hterm hmem =>
      subst hterm
      cases hpart with
      | inside hwhole hsub =>
          cases hfind : Entries.find? name members with
          | none => exact .missing
          | some v => exact .inside hwhole (hsub.member (Entries.mem_of_find? hfind))
  | key hterm hmem =>
      subst hterm
      cases hpart with
      | inside hwhole hsub => exact .name hwhole hsub hmem
  | member hterm hmem =>
      subst hterm
      cases hpart with
      | inside hwhole hsub => exact .inside hwhole (hsub.member hmem)
  | item hterm hmem =>
      subst hterm
      cases hpart with
      | inside hwhole hsub => exact .inside hwhole (hsub.item hmem)
  | part hterm hmem =>
      subst hterm
      cases hpart with
      | inside hwhole hsub => exact .inside hwhole (hsub.item (List.of_mem_zip hmem).1)

theorem Reaches.partOf (h : Reaches env term ty env' term' ty') : PartOf term term' := by
  apply h.keeps (motive := fun _ w _ => PartOf term w)
  · intro _ _ _ _ _ _ hconsults hpart
    exact hconsults.partOf hpart
  · exact PartOf.self term

theorem Reaches.termsInReach_subset (h : Reaches env term ty env' term' ty') :
    termsInReach env' ty' ⊆ termsInReach env ty := by
  apply h.keeps (motive := fun inside _ t => termsInReach inside t ⊆ termsInReach env ty)
  · intro _ _ _ _ _ _ hconsults hsubset
    exact List.Subset.trans hconsults.termsInReach_subset hsubset
  · exact List.Subset.refl _

theorem asksShape_of_not_shaped (h : ¬ Shaped term ty) : ty.AsksShape := by
  cases ty with
  | literal value note => exact absurd trivial h
  | union alts note => exact absurd trivial h
  | letIn bindings body note => exact absurd trivial h
  | ref name note => exact absurd trivial h
  | _ => trivial

/-- The failures of the alternatives of a union are those that the checker itself would return
for them. -/
theorem checkGiven_alternatives {checker : Checker} {room : Bool} {fewer : Nat} {alts : List Ty}
    {chain : List Failure} (hle : fewer ≤ (checker.reach room).toNat + 1)
    (h : List.Forall₂ (fun alt failure =>
      checkAt (checker.reach room) fewer env term alt = .error failure ∧ failure.isFatal = false)
      alts chain) :
    List.Forall₂ (fun alt failure => checker.checkGiven room env term alt = .error failure)
      alts chain := by
  refine h.imp ?_
  rintro alt failure ⟨hfails, hsettled⟩
  rw [Checker.checkGiven_eq_reach]
  exact upTo_of_checkAt hfails hsettled hle

/-- What a failure contains when it is in the tree of a check of `term` against `ty` in `env`.
A type is inside `ty` or inside what is bound in `env`. -/
def AccountedFor (checker : Checker) (room : Bool) (env : Env) (term : Option Value) (ty : Ty) :
    Failure → Prop
  | .mismatch t w => t.AsksShape ∧ t ∈ termsInReach env ty ∧ PartOf term w
  | .literalMismatch t w =>
      (∃ expected note, t = .literal expected note) ∧ t ∈ termsInReach env ty ∧ PartOf term w
  | .unionExhausted t w chain =>
      (∃ alts note env', t = .union alts note ∧ Opened env ty env' ∧
        List.Forall₂ (fun alt failure => checker.checkGiven room env' w alt = .error failure)
          alts chain) ∧
      t ∈ termsInReach env ty ∧ PartOf term w
  | .unknownRef name bindings =>
      name ∉ Entries.names bindings ∧ ∀ binding ∈ bindings, binding.2 ∈ termsInReach env ty
  | .recursionLimit _ => True

/-- Every failure in the tree is accounted for, and a check that was given up returns
nothing but that. -/
theorem checkGiven_accountedFor (checker : Checker) (room : Bool) (env : Env)
    (term : Option Value) (ty : Ty) (failure : Failure)
    (h : checker.checkGiven room env term ty = .error failure) :
    (∀ limit, .recursionLimit limit ∈ failure.nodes → failure = .recursionLimit limit) ∧
    ∀ node ∈ failure.nodes, AccountedFor checker room env term ty node := by
  rw [Checker.checkGiven_eq_reach] at h
  constructor
  · intro limit hnode
    rcases exists_origin h hnode with ⟨-, hwhole⟩ | ⟨fewer, env', term', ty', -, -, hown⟩
    · exact hwhole.symm
    · cases hown
  · intro node hnode
    rcases exists_origin h hnode with ⟨hfatal, rfl⟩ | ⟨fewer, env', term', ty', hlt, hreach, hown⟩
    · rw [hfatal]
      trivial
    · have hty : ty' ∈ termsInReach env ty := hreach.termsInReach_subset self_mem_termsInReach
      have hterm : PartOf term term' := hreach.partOf
      cases hown with
      | mismatch hno => exact ⟨asksShape_of_not_shaped hno, hty, hterm⟩
      | literalMismatch hno => exact ⟨⟨_, _, rfl⟩, hty, hterm⟩
      | unionExhausted hchain =>
          have halts := checkGiven_alternatives (Nat.le_of_lt hlt) hchain
          exact ⟨⟨_, _, env', rfl, hreach.opened, halts⟩, hty, hterm⟩
      | unknownRef hname =>
          constructor
          · intro hmem
            obtain ⟨binding, hbinding, rfl⟩ := List.mem_map.1 hmem
            have hbound := Env.mem_flatten_of_mem_snapshot hbinding
            exact Env.lookup_eq_none_iff.1 hname (List.mem_map.2 ⟨binding, hbound, rfl⟩)
          · intro binding hbinding
            have hbound := Env.mem_flatten_of_mem_snapshot hbinding
            apply hreach.termsInReach_subset
            exact mem_termsInReach.2 (Or.inr ⟨binding, hbound, binding.2.self_mem_terms⟩)

/-- The name of a member is refused as a text, under a let in an environment that binds one
name of two. -/
theorem checkGiven_accountedFor_name :
    let env : Env := .root [("known", .literal (.string "a") none)]
    let key : Ty := .union [.ref "known" none, .basic .null none, .ref "unknown" none] none
    let ty : Ty := .letIn [("key", key)] (.map (.ref "key" none) (.basic .bool none) none) none
    let term : Option Value := some (.object [("a", .bool true), ("b", .null)])
    let text : Option Value := some (.string "b")
    let failure : Failure := .unionExhausted key text
      [.literalMismatch (.literal (.string "a") none) text, .mismatch (.basic .null none) text,
        .unknownRef "unknown" [("known", .literal (.string "a") none), ("key", key)]]
    Checker.checkGiven true ⟨8⟩ env term ty = .error failure ∧
    ∀ node ∈ failure.nodes, AccountedFor ⟨8⟩ true env term ty node := by
  intro env key ty term text failure
  have hfails : Checker.checkGiven true ⟨8⟩ env term ty = .error failure := by
    decide +zetaReduce
  exact ⟨hfails, (checkGiven_accountedFor ⟨8⟩ true env term ty failure hfails).2⟩

end Check

end TypedJson
