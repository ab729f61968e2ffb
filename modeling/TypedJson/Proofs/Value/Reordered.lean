import TypedJson.Proofs.Value

/-!
# Values with their members in another order

`Value.Reordered v w` says that `w` is `v` with the members of its objects in another order, at
any depth. No object of `v` repeats a name, so that each name keeps its one member, and then
none of `w` does. The comparison with literals cannot tell such values apart
(`agrees_of_reordered`).
-/

set_option autoImplicit false

namespace TypedJson.Value

/-- The members of objects are put in another order, at any depth; items keep their places. -/
inductive Reordered : Value → Value → Prop where
  | null : Reordered .null .null
  | bool (b : Bool) : Reordered (.bool b) (.bool b)
  | number (n : Number) : Reordered (.number n) (.number n)
  | string (s : String) : Reordered (.string s) (.string s)
  | array {items items' : List Value} :
      List.Forall₂ Reordered items items' → Reordered (.array items) (.array items')
  | object {members between members' : List (String × Value)} :
      Entries.Distinct members → members.Perm between →
      List.Forall₂ (Entries.Named Reordered) between members' →
      Reordered (.object members) (.object members')

/-- Nothing needs to be moved, where no name is repeated. -/
theorem Reordered.refl {v : Value} (h : v.Distinct) : Reordered v v := by
  induction v using Value.induction with
  | null => exact .null
  | bool b => exact .bool b
  | number n => exact .number n
  | string s => exact .string s
  | array items ih =>
      rw [Distinct, distinctItems_iff] at h
      apply Reordered.array
      apply List.forall₂_same.2
      intro v hv
      exact ih v hv (h v hv)
  | object members ih =>
      rw [Distinct, distinctMembers_iff] at h
      apply Reordered.object h.1 (List.Perm.refl members)
      apply List.forall₂_same.2
      rintro ⟨name, v⟩ hmember
      exact .intro name (ih _ hmember (h.2 _ hmember))

theorem Reordered.symm {v w : Value} (h : Reordered v w) : Reordered w v := by
  induction v using Value.induction generalizing w with
  | array items ih =>
      cases h with
      | array hitems =>
          have hboth := (List.forall₂_and_left items _).2 ⟨ih, hitems⟩
          apply Reordered.array
          apply List.Forall₂.flip
          exact hboth.imp fun v w hvw => hvw.1 hvw.2
  | object members ih =>
      cases h with
      | object hdistinct hperm hmembers =>
          have hback : ∀ member ∈ members, ∀ other, Entries.Named Reordered member other →
              Entries.Named Reordered other member := by
            rintro _ hmem _ ⟨name, hv⟩
            exact .intro name (ih _ hmem hv)
          obtain ⟨other, hother, hpairs⟩ := exists_perm_of_forall₂ hperm hmembers hback
          exact .object (hdistinct.of_perm_named hperm hmembers) hother hpairs
  | _ =>
      cases h
      constructor

/-- An array, where there is a value, is reordered to an array. -/
theorem exists_array_of_rel {items : List Value} {term : Option Value}
    (h : Option.Rel Reordered (some (.array items)) term) :
    ∃ items', term = some (.array items') ∧ List.Forall₂ Reordered items items' := by
  obtain ⟨v, rfl, hv⟩ := exists_of_rel_some h
  cases hv with
  | array hitems => exact ⟨_, rfl, hitems⟩

/-- An object, where there is a value, is reordered to an object. -/
theorem exists_object_of_rel {members : List (String × Value)} {term : Option Value}
    (h : Option.Rel Reordered (some (.object members)) term) :
    Entries.Distinct members ∧ ∃ between members', term = some (.object members') ∧
      members.Perm between ∧ List.Forall₂ (Entries.Named Reordered) between members' := by
  obtain ⟨v, rfl, hv⟩ := exists_of_rel_some h
  cases hv with
  | object hdistinct hperm hmembers => exact ⟨hdistinct, _, _, rfl, hperm, hmembers⟩

/-! ## Comparison -/

theorem agreesMembers_iff {as bs : List (String × Value)} :
    agreesMembers as bs = true ↔
      ∀ member ∈ as, ∃ b, Entries.find? member.1 bs = some b ∧ agrees member.2 b = true := by
  induction as with
  | nil => simp [agreesMembers]
  | cons member rest ih =>
      obtain ⟨name, a⟩ := member
      rw [List.forall_mem_cons, ← ih]
      cases hfind : Entries.find? name bs <;> simp [agreesMembers, hfind]

/-- Arrays agree item by item, so their items may be reordered one by one. -/
theorem agreesItems_of_reordered {as as' bs bs' : List Value}
    (hagrees : ∀ a ∈ as, ∀ {a' b b' : Value}, Reordered a a' → Reordered b b' →
      agrees a b = true → agrees a' b' = true)
    (has : List.Forall₂ Reordered as as') (hbs : List.Forall₂ Reordered bs bs')
    (h : agreesItems as bs = true) : agreesItems as' bs' = true := by
  induction has generalizing bs bs' with
  | nil =>
      cases hbs with
      | nil => rfl
      | cons _ _ => simp [agreesItems] at h
  | cons hfirst _ ih =>
      cases hbs with
      | nil => simp [agreesItems] at h
      | cons hb hrest =>
          simp only [agreesItems, Bool.and_eq_true] at h ⊢
          obtain ⟨hown, hlater⟩ := List.forall_mem_cons.1 hagrees
          exact ⟨hown hfirst hb h.1, ih hlater hrest h.2⟩

/-- Literals do not see the order of members, on neither side of a comparison. -/
theorem agrees_of_reordered {a a' b b' : Value} (ha : Reordered a a') (hb : Reordered b b')
    (h : agrees a b = true) : agrees a' b' = true := by
  induction a using Value.induction generalizing a' b b' with
  | array as ih =>
      cases ha with
      | array has =>
          cases hb with
          | array hbs =>
              apply agreesItems_of_reordered _ has hbs h
              intro a hmem a' b b' ha hb hagrees
              exact ih a hmem ha hb hagrees
          | _ => simp [agrees] at h
  | object as ih =>
      cases ha with
      | object _ haperm has =>
          cases hb with
          | object hdistinct hbperm hbs =>
              simp only [agrees, Bool.and_eq_true, beq_iff_eq, agreesMembers_iff] at h ⊢
              constructor
              · rw [← has.length_eq, ← haperm.length_eq, h.1, hbperm.length_eq, hbs.length_eq]
              · rintro ⟨name, a'⟩ hmem'
                obtain ⟨a, hmem, hvalue⟩ := Entries.exists_of_perm_named haperm has hmem'
                obtain ⟨b, hfind, hagrees⟩ := h.2 _ hmem
                have hfound := Entries.find?_of_perm_named hdistinct hbperm hbs name
                rw [hfind] at hfound
                obtain ⟨b', hfind', hb⟩ := exists_of_rel_some hfound
                exact ⟨b', hfind', ih _ hmem hvalue hb hagrees⟩
          | _ => simp [agrees] at h
  | _ =>
      cases ha
      cases hb with
      | array hbs => simp [agrees] at h
      | object hdistinct hperm hbs => simp [agrees] at h
      | _ => exact h

end TypedJson.Value
