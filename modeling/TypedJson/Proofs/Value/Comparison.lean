import TypedJson.Proofs.Number.Comparison
import TypedJson.Proofs.Value.Reordered

/-!
# Comparison of values

`Value.agrees` compares literals: numbers by what they stand for, arrays item by item and
objects by name. Where no name is repeated it is reflexive and symmetric (`agrees_refl`,
`agrees_comm`), and the order of members plays no part (`agrees_eq_of_reordered`).

From `a` over `b` to `c` it leads to agreement or to a clash: at the same place in `a` and in `c`
stand two different integers that are rounded to the same binary64 number (`agrees_trans_or`). What
agrees does not clash, so a clash is the exact condition. Integers below `2 ^ 53` in magnitude
never clash.
-/

set_option autoImplicit false

namespace TypedJson.Value

variable {a b c : Value}

theorem agreesItems_iff {as bs : List Value} :
    agreesItems as bs = true ↔ List.Forall₂ (fun a b => agrees a b = true) as bs := by
  induction as generalizing bs with
  | nil => cases bs <;> simp [agreesItems]
  | cons a as ih => cases bs <;> simp [agreesItems, ih]

/-- Every value agrees with itself where no name is repeated. A repeated name would be
compared with its first member only. -/
theorem agrees_refl (h : a.Distinct) : agrees a a = true := by
  induction a using Value.induction with
  | null => rfl
  | bool p => simp [agrees]
  | number n => exact Number.sameNumber_refl n
  | string s => simp [agrees]
  | array as ih =>
      rw [Distinct, distinctItems_iff] at h
      apply agreesItems_iff.2
      apply List.forall₂_same.2
      intro a ha
      exact ih a ha (h a ha)
  | object as ih =>
      rw [Distinct, distinctMembers_iff] at h
      simp only [agrees, Bool.and_eq_true, beq_self_eq_true, true_and, agreesMembers_iff]
      intro member hmember
      exact ⟨member.2, Entries.find?_of_mem h.1 hmember, ih member hmember (h.2 member hmember)⟩

/-- Objects that agree have the same names, where the first repeats none. -/
theorem mem_names_of_agrees {as bs : List (String × Value)} (hdistinct : Entries.Distinct as)
    (h : agrees (.object as) (.object bs) = true) {name : String}
    (hname : name ∈ Entries.names bs) : name ∈ Entries.names as := by
  simp only [agrees, Bool.and_eq_true, beq_iff_eq, agreesMembers_iff] at h
  obtain ⟨hlength, hmembers⟩ := h
  have hsubset : Entries.names as ⊆ Entries.names bs := by
    intro other hother
    obtain ⟨member, hmember, rfl⟩ := List.mem_map.1 hother
    obtain ⟨b, hfind, -⟩ := hmembers member hmember
    exact Entries.mem_names_of_find? hfind
  -- As many different names as the second object has members leave no other name to it.
  have hcount : (Entries.names bs).length ≤ (Entries.names as).length := by
    simp [Entries.names, hlength]
  have hperm := (List.Nodup.subperm hdistinct hsubset).perm_of_length_le hcount
  exact hperm.mem_iff.2 hname

/-- Comparison is symmetric where no name is repeated. -/
theorem agrees_symm (ha : a.Distinct) (hb : b.Distinct) (h : agrees a b = true) :
    agrees b a = true := by
  induction a using Value.induction generalizing b with
  | null => cases b <;> exact h
  | bool p =>
      cases b with
      | bool q =>
          simp only [agrees, beq_iff_eq] at h ⊢
          exact h.symm
      | _ => simp [agrees] at h
  | number n =>
      cases b with
      | number m => exact Number.sameNumber_symm h
      | _ => simp [agrees] at h
  | string s =>
      cases b with
      | string t =>
          simp only [agrees, beq_iff_eq] at h ⊢
          exact h.symm
      | _ => simp [agrees] at h
  | array as ih =>
      cases b with
      | array bs =>
          rw [Distinct, distinctItems_iff] at ha hb
          have hpairs : List.Forall₂ (fun a b => agrees a b = true) as bs := agreesItems_iff.1 h
          refine agreesItems_iff.2 (List.forall₂_iff_zip.2 ⟨hpairs.length_eq.symm, ?_⟩)
          intro b a hmem
          obtain ⟨hbmem, hamem⟩ := List.of_mem_zip hmem
          have hswapped : (a, b) ∈ as.zip bs := by
            rw [← List.zip_swap]
            exact List.mem_map.2 ⟨(b, a), hmem, rfl⟩
          have hpair := (List.forall₂_iff_zip.1 hpairs).2 hswapped
          exact ih a hamem (ha a hamem) (hb b hbmem) hpair
      | _ => simp [agrees] at h
  | object as ih =>
      cases b with
      | object bs =>
          have hnames : ∀ name ∈ Entries.names bs, name ∈ Entries.names as := by
            intro name hname
            exact mem_names_of_agrees ha.1 h hname
          rw [Distinct, distinctMembers_iff] at ha hb
          simp only [agrees, Bool.and_eq_true, beq_iff_eq, agreesMembers_iff] at h ⊢
          refine ⟨h.1.symm, ?_⟩
          rintro ⟨name, b⟩ hbmem
          have hname : name ∈ Entries.names as := hnames name (List.mem_map.2 ⟨_, hbmem, rfl⟩)
          obtain ⟨⟨_, a⟩, hamem, rfl⟩ := List.mem_map.1 hname
          obtain ⟨found, hfind, hagrees⟩ := h.2 _ hamem
          have hfound : found = b := by
            rw [Entries.find?_of_mem hb.1 hbmem] at hfind
            exact (Option.some.inj hfind).symm
          subst hfound
          exact ⟨a, Entries.find?_of_mem ha.1 hamem,
            ih _ hamem (ha.2 _ hamem) (hb.2 _ hbmem) hagrees⟩
      | _ => simp [agrees] at h

/-- The order of the two values does not matter. -/
theorem agrees_comm (ha : a.Distinct) (hb : b.Distinct) : agrees a b = agrees b a := by
  rw [Bool.eq_iff_iff]
  constructor
  · exact agrees_symm ha hb
  · exact agrees_symm hb ha

/-- The order of the members of one value does not matter, at any depth. -/
theorem agrees_eq_of_reordered {a' : Value} (ha : Reordered a a') (hb : b.Distinct) :
    agrees a' b = agrees a b := by
  have hsame : Reordered b b := .refl hb
  rw [Bool.eq_iff_iff]
  constructor
  · exact agrees_of_reordered ha.symm hsame
  · exact agrees_of_reordered ha hsame

/-! ## Clashes -/

/-- At the same place in both values stand two different integers that are the same once they
are rounded. -/
inductive Clashes : Value → Value → Prop where
  | number {n m : Number} : n.Clashes m → Clashes (.number n) (.number m)
  | item {as bs : List Value} {a b : Value} :
      (a, b) ∈ as.zip bs → Clashes a b → Clashes (.array as) (.array bs)
  | member {as bs : List (String × Value)} {name : String} {a b : Value} :
      (name, a) ∈ as → Entries.find? name bs = some b → Clashes a b →
      Clashes (.object as) (.object bs)

/-- What agrees has no clash. -/
theorem not_clashes_of_agrees (h : agrees a b = true) : ¬ Clashes a b := by
  intro hclash
  induction hclash with
  | number hnumbers => exact Number.not_clashes_of_sameNumber h hnumbers
  | item hmem _ ih =>
      have hpairs := List.forall₂_iff_zip.1 (agreesItems_iff.1 h)
      exact ih (hpairs.2 hmem)
  | member hmem hfind _ ih =>
      simp only [agrees, Bool.and_eq_true, agreesMembers_iff] at h
      obtain ⟨found, hfound, hagrees⟩ := h.2 _ hmem
      rw [hfind] at hfound
      cases hfound
      exact ih hagrees

/-- Items are compared one by one, and so are the three lists. -/
theorem agreesItems_trans_or {as bs cs : List Value}
    (htrans : ∀ a ∈ as, ∀ {b c : Value}, agrees a b = true → agrees b c = true →
      agrees a c = true ∨ Clashes a c)
    (hab : List.Forall₂ (fun a b => agrees a b = true) as bs)
    (hbc : List.Forall₂ (fun b c => agrees b c = true) bs cs) :
    List.Forall₂ (fun a c => agrees a c = true) as cs ∨
      ∃ pair ∈ as.zip cs, Clashes pair.1 pair.2 := by
  induction hab generalizing cs with
  | nil =>
      cases hbc
      exact Or.inl .nil
  | cons hfirst _ ih =>
      cases hbc with
      | cons hsecond hrest =>
          obtain ⟨hown, hlater⟩ := List.forall_mem_cons.1 htrans
          rcases ih hlater hrest with hagree | ⟨pair, hmem, hclash⟩
          · rcases hown hfirst hsecond with hac | hclash
            · exact Or.inl (.cons hac hagree)
            · exact Or.inr ⟨_, List.mem_cons_self, hclash⟩
          · exact Or.inr ⟨pair, List.mem_cons_of_mem _ hmem, hclash⟩

/-- Comparison is transitive, up to clashes. The induction is on the first value; the values in
between have the same form. -/
theorem agrees_trans_or (hab : agrees a b = true) (hbc : agrees b c = true) :
    agrees a c = true ∨ Clashes a c := by
  induction a using Value.induction generalizing b c with
  | number n =>
      cases b with
      | number m =>
          cases c with
          | number k => exact (Number.sameNumber_trans_or hab hbc).imp_right .number
          | _ => simp [agrees] at hbc
      | _ => simp [agrees] at hab
  | array as ih =>
      cases b with
      | array bs =>
          cases c with
          | array cs =>
              have htrans := agreesItems_trans_or (fun a ha {b c} => ih a ha)
                (agreesItems_iff.1 hab) (agreesItems_iff.1 hbc)
              rcases htrans with hagree | ⟨pair, hmem, hclash⟩
              · exact Or.inl (agreesItems_iff.2 hagree)
              · exact Or.inr (.item hmem hclash)
          | _ => simp [agrees] at hbc
      | _ => simp [agrees] at hab
  | object as ih =>
      cases b with
      | object bs =>
          cases c with
          | object cs =>
              simp only [agrees, Bool.and_eq_true, beq_iff_eq, agreesMembers_iff] at hab hbc
              by_cases hclash : Clashes (.object as) (.object cs)
              · exact Or.inr hclash
              · refine Or.inl ?_
                simp only [agrees, Bool.and_eq_true, beq_iff_eq, agreesMembers_iff]
                refine ⟨hab.1.trans hbc.1, ?_⟩
                rintro ⟨name, a⟩ hmem
                obtain ⟨b, hfind, hfirst⟩ := hab.2 _ hmem
                obtain ⟨c, hfind', hsecond⟩ := hbc.2 _ (Entries.mem_of_find? hfind)
                refine ⟨c, hfind', (ih _ hmem hfirst hsecond).resolve_right ?_⟩
                intro hmembers
                exact hclash (.member hmem hfind' hmembers)
          | _ => simp [agrees] at hbc
      | _ => simp [agrees] at hab
  | null =>
      cases b with
      | null => exact Or.inl hbc
      | _ => simp [agrees] at hab
  | bool p =>
      cases b with
      | bool q =>
          have heq : p = q := by simpa [agrees] using hab
          subst heq
          exact Or.inl hbc
      | _ => simp [agrees] at hab
  | string s =>
      cases b with
      | string t =>
          have heq : s = t := by simpa [agrees] using hab
          subst heq
          exact Or.inl hbc
      | _ => simp [agrees] at hab

/-! ## Safe integers -/

mutual

/-- The integers in a value. -/
def integers : Value → List Int
  | .number (.int n _) => [n]
  | .array items => integersIn items
  | .object members => integersNamed members
  | _ => []

/-- The integers in every item. -/
def integersIn : List Value → List Int
  | [] => []
  | v :: rest => integers v ++ integersIn rest

/-- The integers in the value of every member. -/
def integersNamed : List (String × Value) → List Int
  | [] => []
  | (_, v) :: rest => integers v ++ integersNamed rest

end

/-- Every integer in the value is below `2 ^ 53` in magnitude. -/
def SafeIntegers (v : Value) : Prop :=
  ∀ n ∈ v.integers, n.natAbs < 2 ^ 53

instance : DecidablePred SafeIntegers := fun v =>
  inferInstanceAs (Decidable (∀ n ∈ v.integers, n.natAbs < 2 ^ 53))

theorem integers_subset_of_mem {items : List Value} {v : Value} (h : v ∈ items) :
    v.integers ⊆ integersIn items := by
  induction items with
  | nil => cases h
  | cons first rest ih =>
      rw [integersIn]
      rcases List.mem_cons.1 h with rfl | hrest
      · exact List.subset_append_left _ _
      · exact List.Subset.trans (ih hrest) (List.subset_append_right _ _)

theorem integers_subset_of_mem_named {members : List (String × Value)}
    {member : String × Value} (h : member ∈ members) :
    member.2.integers ⊆ integersNamed members := by
  induction members with
  | nil => cases h
  | cons first rest ih =>
      rw [integersNamed]
      rcases List.mem_cons.1 h with rfl | hrest
      · exact List.subset_append_left _ _
      · exact List.Subset.trans (ih hrest) (List.subset_append_right _ _)

theorem Clashes.not_safe (h : Clashes a b) : ¬ (a.SafeIntegers ∧ b.SafeIntegers) := by
  rintro ⟨ha, hb⟩
  induction h with
  | @number n m hnumbers =>
      cases n with
      | int n hn =>
          cases m with
          | int m hm =>
              have hsafe := ha n (List.mem_singleton.2 rfl)
              have hsafe' := hb m (List.mem_singleton.2 rfl)
              exact hnumbers.1 (Binary64.eq_of_sameNumber_ofInt hsafe hsafe' hnumbers.2)
          | float y => exact hnumbers
      | float x => exact hnumbers
  | item hmem _ ih =>
      obtain ⟨hamem, hbmem⟩ := List.of_mem_zip hmem
      apply ih
      · intro n hn
        exact ha n (integers_subset_of_mem hamem hn)
      · intro n hn
        exact hb n (integers_subset_of_mem hbmem hn)
  | member hmem hfind _ ih =>
      apply ih
      · intro n hn
        exact ha n (integers_subset_of_mem_named hmem hn)
      · intro n hn
        exact hb n (integers_subset_of_mem_named (Entries.mem_of_find? hfind) hn)

end TypedJson.Value
