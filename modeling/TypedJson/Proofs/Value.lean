import TypedJson.Proofs.Entries
import TypedJson.Value.Printer

/-!
# Nesting, merging and length of values

`Value.induction` gives the hypothesis for every item and every member, and the
functions that run through lists of items and members are rewritten to statements
about each of them. From these: `Value.merged` gives a value without repeated names,
changes no value that has none, and never nests deeper; the text of a list of values
is longer than the list.
-/

set_option autoImplicit false

namespace TypedJson.Value

/-- Induction on values, with the hypothesis for every item and every member. -/
@[elab_as_elim]
theorem induction {motive : Value → Prop} (null : motive .null) (bool : ∀ b, motive (.bool b))
    (number : ∀ n, motive (.number n)) (string : ∀ s, motive (.string s))
    (array : ∀ items, (∀ v ∈ items, motive v) → motive (.array items))
    (object : ∀ members, (∀ member ∈ members, motive member.2) → motive (.object members))
    (v : Value) : motive v := by
  refine @Value.rec motive (fun items => ∀ v ∈ items, motive v)
    (fun members => ∀ member ∈ members, motive member.2) (fun member => motive member.2)
    null bool number string array object (by simp) ?_ (by simp) ?_ (fun _ _ h => h) v
  · intro v rest hv hrest
    exact List.forall_mem_cons.2 ⟨hv, hrest⟩
  · intro member rest hmember hrest
    exact List.forall_mem_cons.2 ⟨hmember, hrest⟩

mutual

/-- Whether a value repeats a name can be computed. -/
def decDistinct : (v : Value) → Decidable v.Distinct
  | .null => isTrue trivial
  | .bool _ => isTrue trivial
  | .number _ => isTrue trivial
  | .string _ => isTrue trivial
  | .array items => decDistinctItems items
  | .object members =>
      haveI := decDistinctMembers members
      inferInstanceAs (Decidable (Entries.Distinct members ∧ DistinctMembers members))

/-- `decDistinct` for every item. -/
def decDistinctItems : (items : List Value) → Decidable (DistinctItems items)
  | [] => isTrue trivial
  | v :: rest =>
      haveI := decDistinct v
      haveI := decDistinctItems rest
      inferInstanceAs (Decidable (v.Distinct ∧ DistinctItems rest))

/-- `decDistinct` for the value of every member. -/
def decDistinctMembers : (members : List (String × Value)) → Decidable (DistinctMembers members)
  | [] => isTrue trivial
  | (_, v) :: rest =>
      haveI := decDistinct v
      haveI := decDistinctMembers rest
      inferInstanceAs (Decidable (v.Distinct ∧ DistinctMembers rest))

end

instance : DecidablePred Value.Distinct := decDistinct

/-! ## Items and members one by one -/

theorem mergedItems_eq_map (items : List Value) : mergedItems items = items.map merged := by
  induction items with
  | nil => rfl
  | cons v rest ih => rw [mergedItems, ih, List.map_cons]

theorem mergedMembers_eq_map (members : List (String × Value)) :
    mergedMembers members = members.map fun member => (member.1, member.2.merged) := by
  induction members with
  | nil => rfl
  | cons member rest ih => rw [mergedMembers, ih, List.map_cons]

theorem distinctItems_iff {items : List Value} :
    DistinctItems items ↔ ∀ v ∈ items, v.Distinct := by
  induction items with
  | nil => simp [DistinctItems]
  | cons v rest ih => rw [DistinctItems, ih, List.forall_mem_cons]

theorem distinctMembers_iff {members : List (String × Value)} :
    DistinctMembers members ↔ ∀ member ∈ members, member.2.Distinct := by
  induction members with
  | nil => simp [DistinctMembers]
  | cons member rest ih => rw [DistinctMembers, ih, List.forall_mem_cons]

theorem nestingItems_le_iff {items : List Value} {n : Nat} :
    nestingItems items ≤ n ↔ ∀ v ∈ items, v.nesting ≤ n := by
  induction items with
  | nil => simp [nestingItems]
  | cons v rest ih => rw [nestingItems, Nat.max_le, ih, List.forall_mem_cons]

theorem nestingMembers_le_iff {members : List (String × Value)} {n : Nat} :
    nestingMembers members ≤ n ↔ ∀ member ∈ members, member.2.nesting ≤ n := by
  induction members with
  | nil => simp [nestingMembers]
  | cons member rest ih => rw [nestingMembers, Nat.max_le, ih, List.forall_mem_cons]

theorem nesting_array_le_iff {items : List Value} {n : Nat} :
    (Value.array items).nesting ≤ n + 1 ↔ ∀ v ∈ items, v.nesting ≤ n := by
  rw [nesting, Nat.add_le_add_iff_right, nestingItems_le_iff]

theorem nesting_object_le_iff {members : List (String × Value)} {n : Nat} :
    (Value.object members).nesting ≤ n + 1 ↔ ∀ member ∈ members, member.2.nesting ≤ n := by
  rw [nesting, Nat.add_le_add_iff_right, nestingMembers_le_iff]

theorem nesting_lt_array {items : List Value} {v : Value} (h : v ∈ items) :
    v.nesting < (Value.array items).nesting :=
  Nat.lt_succ_of_le (nestingItems_le_iff.1 (Nat.le_refl _) v h)

theorem nesting_lt_object {members : List (String × Value)} {member : String × Value}
    (h : member ∈ members) : member.2.nesting < (Value.object members).nesting :=
  Nat.lt_succ_of_le (nestingMembers_le_iff.1 (Nat.le_refl _) member h)

/-! ## Merging -/

/-- Merging gives every name of every object one member. -/
theorem distinct_merged (v : Value) : v.merged.Distinct := by
  induction v using Value.induction with
  | array items ih =>
      rw [merged, Distinct, distinctItems_iff, mergedItems_eq_map]
      intro v hv
      obtain ⟨u, hu, rfl⟩ := List.mem_map.1 hv
      exact ih u hu
  | object members ih =>
      rw [merged, Distinct, distinctMembers_iff, mergedMembers_eq_map]
      refine ⟨Entries.distinct_ofList _, fun member hmember => ?_⟩
      obtain ⟨u, hu, rfl⟩ := List.mem_map.1 (Entries.mem_of_mem_ofList hmember)
      exact ih u hu
  | _ => trivial

/-- Merging has nothing to do where no name is repeated. -/
theorem merged_of_distinct {v : Value} (h : v.Distinct) : v.merged = v := by
  induction v using Value.induction with
  | array items ih =>
      rw [Distinct, distinctItems_iff] at h
      have hitems : items.map merged = items :=
        (List.map_congr_left fun v hv => ih v hv (h v hv)).trans (List.map_id' items)
      rw [merged, mergedItems_eq_map, hitems]
  | object members ih =>
      rw [Distinct, distinctMembers_iff] at h
      have hmembers : mergedMembers members = members := by
        rw [mergedMembers_eq_map]
        refine (List.map_congr_left fun member hmember => ?_).trans (List.map_id' members)
        exact Prod.ext rfl (ih member hmember (h.2 member hmember))
      rw [merged, hmembers, Entries.ofList_of_distinct h.1]
  | _ => rfl

/-- Merging drops members and adds none, so that nothing gets deeper. -/
theorem nesting_merged_le (v : Value) : v.merged.nesting ≤ v.nesting := by
  induction v using Value.induction with
  | array items ih =>
      rw [merged, mergedItems_eq_map]
      refine nesting_array_le_iff.2 fun v hv => ?_
      obtain ⟨u, hu, rfl⟩ := List.mem_map.1 hv
      exact Nat.le_trans (ih u hu) (nesting_array_le_iff.1 (Nat.le_refl _) u hu)
  | object members ih =>
      rw [merged, mergedMembers_eq_map]
      refine nesting_object_le_iff.2 fun member hmember => ?_
      obtain ⟨u, hu, rfl⟩ := List.mem_map.1 (Entries.mem_of_mem_ofList hmember)
      exact Nat.le_trans (ih u hu) (nesting_object_le_iff.1 (Nat.le_refl _) u hu)
  | _ => exact Nat.le_refl _

/-! ## Lengths of texts -/

theorem length_lt_writeChars (cs after : List Char) :
    after.length < (writeChars cs after).length := by
  induction cs with
  | nil => simp [writeChars]
  | cons c cs ih =>
      rw [writeChars, List.length_append]
      omega

theorem length_lt_writeString (s : String) (after : List Char) :
    after.length < (writeString s after).length :=
  Nat.lt_succ_of_lt (length_lt_writeChars s.toList after)

theorem length_lt_writeMember (name : String) (v : Value) {after : List Char}
    (h : after.length ≤ (v.write after).length) :
    after.length < (writeString name (':' :: v.write after)).length := by
  have hname := length_lt_writeString name (':' :: v.write after)
  rw [List.length_cons] at hname
  omega

/-- Every item after the first takes its comma at least. -/
theorem length_lt_writeItems {vs : List Value}
    (h : ∀ v ∈ vs, ∀ after, after.length ≤ (v.write after).length) (after : List Char) :
    vs.length + after.length < (writeItems vs after).length := by
  induction vs with
  | nil => simp [writeItems]
  | cons v vs ih =>
      obtain ⟨hv, hvs⟩ := List.forall_mem_cons.1 h
      have hwritten := hv (writeItems vs after)
      have hrest := ih hvs
      simp only [writeItems, List.length_cons]
      omega

theorem length_lt_writeMembers {ms : List (String × Value)}
    (h : ∀ member ∈ ms, ∀ after, after.length ≤ (member.2.write after).length)
    (after : List Char) : ms.length + after.length < (writeMembers ms after).length := by
  induction ms with
  | nil => simp [writeMembers]
  | cons member ms ih =>
      obtain ⟨name, v⟩ := member
      obtain ⟨hv, hms⟩ := List.forall_mem_cons.1 h
      have hwritten := length_lt_writeMember name v (hv (writeMembers ms after))
      have hrest := ih hms
      simp only [writeMembers, List.length_cons]
      omega

/-- The text of a value comes in front of what follows. -/
theorem length_le_write (v : Value) (after : List Char) :
    after.length ≤ (v.write after).length := by
  induction v using Value.induction generalizing after with
  | null => simp only [write, List.length_cons]; omega
  | bool b => cases b <;> simp only [write, List.length_cons] <;> omega
  | number n => simp [write]
  | string s => exact Nat.le_of_lt (length_lt_writeString s after)
  | array items ih =>
      cases items with
      | nil => simp only [write, List.length_cons]; omega
      | cons v rest =>
          obtain ⟨hv, hrest⟩ := List.forall_mem_cons.1 ih
          have hwritten := hv (writeItems rest after)
          have hitems := length_lt_writeItems hrest after
          simp only [write, List.length_cons]
          omega
  | object members ih =>
      cases members with
      | nil => simp only [write, List.length_cons]; omega
      | cons member rest =>
          obtain ⟨name, v⟩ := member
          obtain ⟨hv, hrest⟩ := List.forall_mem_cons.1 ih
          have hwritten := length_lt_writeMember name v (hv (writeMembers rest after))
          have hmembers := length_lt_writeMembers hrest after
          simp only [write, List.length_cons]
          omega

end TypedJson.Value
