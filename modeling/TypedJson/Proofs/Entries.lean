import Mathlib.Data.List.Forall2
import Mathlib.Data.List.Nodup
import Mathlib.Data.List.Perm.Basic
import TypedJson.Entries

/-!
# Entries that are written one after the other

Writing an entry keeps the names distinct and adds no entry but the one written.
Hence `Entries.ofList` always has distinct names, takes all its entries from the
list, and gives a list with distinct names back unchanged. Where names are distinct,
the entries of one name or of two names are those that are found under them, and what is
found under a name does not depend on the order. Writing one list and then another is writing what
both make together (`Entries.insertAll_insertAll`). The names that writing adds come in the order
in which they first come up (`Entries.names_insertAll`). Writing and finding commute with a change
of what stands under each name (`Entries.mapped`).
-/

set_option autoImplicit false

namespace TypedJson

section Paired

variable {α β : Type} {R : α → β → Prop} {as : List α} {bs : List β}

theorem exists_right_of_forall₂ (h : List.Forall₂ R as bs) {a : α} (ha : a ∈ as) :
    ∃ b ∈ bs, R a b := by
  induction h with
  | nil => cases ha
  | cons hfirst _ ih =>
      rcases List.mem_cons.1 ha with rfl | hrest
      · exact ⟨_, List.mem_cons_self, hfirst⟩
      · obtain ⟨b, hb, hab⟩ := ih hrest
        exact ⟨b, List.mem_cons_of_mem _ hb, hab⟩

theorem exists_left_of_forall₂ (h : List.Forall₂ R as bs) {b : β} (hb : b ∈ bs) :
    ∃ a ∈ as, R a b :=
  exists_right_of_forall₂ h.flip hb

/-- What is put in order and then paired off can be put in order and paired off from the other
side. -/
theorem exists_perm_of_forall₂ {R' : β → α → Prop} {between : List α} (hperm : as.Perm between)
    (h : List.Forall₂ R between bs) (hback : ∀ a ∈ as, ∀ b, R a b → R' b a) :
    ∃ other, bs.Perm other ∧ List.Forall₂ R' other as := by
  obtain ⟨other, hpairs, hother⟩ := List.perm_comp_forall₂ hperm h
  refine ⟨other, hother.symm, ?_⟩
  have hboth := (List.forall₂_and_left as other).2 ⟨hback, hpairs⟩
  apply List.Forall₂.flip
  exact hboth.imp fun a b hab => hab.1 b hab.2

theorem exists_of_rel_some {a : α} {found : Option β} (h : Option.Rel R (some a) found) :
    ∃ b, found = some b ∧ R a b := by
  cases h with
  | some hab => exact ⟨_, rfl, hab⟩

end Paired

namespace Entries

variable {α : Type} {name : String} {a : α} {entries into : Entries α}

@[simp]
theorem names_cons (entry : String × α) : names (entry :: entries) = entry.1 :: names entries := rfl

theorem distinct_cons {entry : String × α} :
    Distinct (entry :: entries) ↔ entry.1 ∉ names entries ∧ Distinct entries :=
  List.nodup_cons

/-! ## One entry -/

theorem mem_names_insert {other : String} :
    other ∈ names (insert name a entries) ↔ other = name ∨ other ∈ names entries := by
  induction entries with
  | nil => simp [insert, names]
  | cons entry rest ih =>
      obtain ⟨key, b⟩ := entry
      by_cases hkey : key = name
      · subst hkey
        simp [insert, names]
      · simp only [insert, hkey, if_false]
        change other ∈ key :: names (insert name a rest) ↔ other = name ∨ other ∈ key :: names rest
        rw [List.mem_cons, List.mem_cons, ih]
        tauto

/-- Writing an entry keeps the names distinct. -/
theorem Distinct.insert (h : Distinct entries) : Distinct (insert name a entries) := by
  induction entries with
  | nil => simp [Entries.insert, Distinct, names]
  | cons entry rest ih =>
      obtain ⟨key, b⟩ := entry
      obtain ⟨hnew, hrest⟩ := List.nodup_cons.1 h
      by_cases hkey : key = name
      · simpa [Entries.insert, hkey, Distinct, names] using h
      · simp only [Entries.insert, hkey, if_false]
        refine List.nodup_cons.2 ⟨?_, ih hrest⟩
        intro hmem
        rcases mem_names_insert.1 hmem with hname | hmem
        · exact hkey hname
        · exact hnew hmem

theorem eq_or_mem_of_mem_insert {entry : String × α} (h : entry ∈ insert name a entries) :
    entry = (name, a) ∨ entry ∈ entries := by
  induction entries with
  | nil => exact Or.inl (by simpa [insert] using h)
  | cons first rest ih =>
      obtain ⟨key, b⟩ := first
      by_cases hkey : key = name
      · simp only [insert, hkey, if_true, List.mem_cons] at h
        rcases h with rfl | h
        · exact Or.inl rfl
        · exact Or.inr (List.mem_cons_of_mem _ h)
      · simp only [insert, hkey, if_false, List.mem_cons] at h
        rcases h with rfl | h
        · exact Or.inr List.mem_cons_self
        · exact (ih h).imp_right (List.mem_cons_of_mem _)

/-- A new name goes to the end. -/
theorem insert_of_not_mem (h : name ∉ names entries) :
    insert name a entries = entries ++ [(name, a)] := by
  induction entries with
  | nil => rfl
  | cons entry rest ih =>
      obtain ⟨key, b⟩ := entry
      simp only [names, List.map_cons, List.mem_cons, not_or] at h
      simp [insert, Ne.symm h.1, ih h.2]

/-! ## All entries of a list -/

theorem Distinct.insertAll {more : List (String × α)} (h : Distinct into) :
    Distinct (insertAll into more) := by
  induction more generalizing into with
  | nil => exact h
  | cons entry more ih => exact ih h.insert

theorem mem_or_mem_of_mem_insertAll {entry : String × α} {more : List (String × α)}
    (h : entry ∈ insertAll into more) : entry ∈ into ∨ entry ∈ more := by
  induction more generalizing into with
  | nil => exact Or.inl h
  | cons first more ih =>
      rcases ih h with hinto | hmore
      · rcases eq_or_mem_of_mem_insert hinto with rfl | hinto
        · exact Or.inr List.mem_cons_self
        · exact Or.inl hinto
      · exact Or.inr (List.mem_cons_of_mem _ hmore)

theorem insertAll_of_distinct {more : List (String × α)} (h : Distinct (into ++ more)) :
    insertAll into more = into ++ more := by
  induction more generalizing into with
  | nil => simp [insertAll]
  | cons entry more ih =>
      obtain ⟨key, a⟩ := entry
      have hnew : key ∉ names into := by
        intro hmem
        simp only [Distinct, names, List.map_append, List.map_cons, List.nodup_append] at h
        exact h.2.2 key hmem key List.mem_cons_self rfl
      rw [insertAll, insert_of_not_mem hnew, ih (by simpa using h)]
      simp

/-- The names of collected entries are distinct. -/
theorem distinct_ofList (entries : List (String × α)) : Distinct (ofList entries) :=
  Distinct.insertAll List.nodup_nil

/-- Collecting entries invents none. -/
theorem mem_of_mem_ofList {entry : String × α} {entries : List (String × α)}
    (h : entry ∈ ofList entries) : entry ∈ entries :=
  (mem_or_mem_of_mem_insertAll h).resolve_left List.not_mem_nil

/-- Entries with distinct names are collected as they are. -/
theorem ofList_of_distinct (h : Distinct entries) : ofList entries = entries :=
  insertAll_of_distinct h

/-! ## Entries under a name -/

theorem mem_of_find? (h : find? name entries = some a) : (name, a) ∈ entries := by
  induction entries with
  | nil => simp [find?] at h
  | cons entry rest ih =>
      obtain ⟨key, b⟩ := entry
      by_cases hkey : key = name
      · subst hkey
        simp only [find?, if_true, Option.some.injEq] at h
        subst h
        exact List.mem_cons_self
      · simp only [find?, hkey, if_false] at h
        exact List.mem_cons_of_mem _ (ih h)

theorem find?_of_mem (h : Distinct entries) (hmem : (name, a) ∈ entries) :
    find? name entries = some a := by
  induction entries with
  | nil => simp at hmem
  | cons entry rest ih =>
      obtain ⟨key, b⟩ := entry
      obtain ⟨hnew, hrest⟩ := List.nodup_cons.1 h
      rcases List.mem_cons.1 hmem with heq | hlater
      · cases heq
        simp [find?]
      · have hkey : key ≠ name := by
          rintro rfl
          exact hnew (List.mem_map.2 ⟨_, hlater, rfl⟩)
        simpa [find?, hkey] using ih hrest hlater

theorem mem_names_of_find? (h : find? name entries = some a) : name ∈ names entries :=
  List.mem_map.2 ⟨_, mem_of_find? h, rfl⟩

theorem find?_eq_none_iff : find? name entries = none ↔ name ∉ names entries := by
  induction entries with
  | nil => simp [find?, names]
  | cons entry rest ih =>
      obtain ⟨key, b⟩ := entry
      by_cases hkey : key = name
      · simp [find?, names, hkey]
      · simpa [find?, names, hkey, Ne.symm hkey] using ih

/-- With distinct names, the entries of one name are the one that is found. -/
theorem filter_name (h : Distinct entries) (name : String) :
    entries.filter (fun entry => entry.1 == name) =
      ((find? name entries).map fun a => (name, a)).toList := by
  induction entries with
  | nil => rfl
  | cons entry rest ih =>
      obtain ⟨key, b⟩ := entry
      obtain ⟨hnew, hrest⟩ := List.nodup_cons.1 h
      by_cases hkey : key = name
      · subst hkey
        have hnone : rest.filter (fun entry => entry.1 == key) = [] := by
          rw [ih hrest, find?_eq_none_iff.2 hnew]
          rfl
        simp [find?, hnone]
      · simp [find?, hkey, ih hrest]

/-- With distinct names, the entries of two names are the two that are found, in one
order or the other. -/
theorem filter_two_names {p q : String} {b : α} (h : Distinct entries) (hne : p ≠ q)
    (hp : find? p entries = some a) (hq : find? q entries = some b) :
    entries.filter (fun entry => entry.1 == p || entry.1 == q) = [(p, a), (q, b)] ∨
      entries.filter (fun entry => entry.1 == p || entry.1 == q) = [(q, b), (p, a)] := by
  induction entries with
  | nil => simp [find?] at hp
  | cons entry rest ih =>
      obtain ⟨key, c⟩ := entry
      obtain ⟨hnew, hrest⟩ := List.nodup_cons.1 h
      have hleft {other : String} : rest.filter (fun entry => entry.1 == key || entry.1 == other) =
          ((find? other rest).map fun a => (other, a)).toList := by
        rw [← filter_name hrest other]
        refine List.filter_congr fun entry hentry => ?_
        have hother : entry.1 ≠ key := by
          intro heq
          exact hnew (List.mem_map.2 ⟨entry, hentry, heq⟩)
        simp [hother]
      by_cases hkp : key = p
      · subst hkp
        simp only [find?, if_true, hne, if_false, Option.some.injEq] at hp hq
        subst hp
        refine Or.inl ?_
        simp [hleft, hq]
      · by_cases hkq : key = q
        · subst hkq
          simp only [find?, if_true, hkp, if_false, Option.some.injEq] at hp hq
          subst hq
          refine Or.inr ?_
          simp only [Bool.or_comm (_ == p)]
          simp [hleft, hp]
        · simp only [find?, hkp, hkq, if_false] at hp hq
          simpa [hkp, hkq] using ih hrest hp hq

/-! ## Entries under a name after writing -/

theorem find?_insert (other : String) :
    find? other (insert name a entries) =
      if name = other then some a else find? other entries := by
  induction entries with
  | nil => rfl
  | cons entry rest ih =>
      obtain ⟨key, b⟩ := entry
      by_cases hkey : key = name
      · subst hkey
        by_cases hother : key = other <;> simp [insert, find?, hother]
      · simp only [insert, hkey, if_false, find?, ih]
        by_cases hother : key = other
        · simp [hother, Ne.symm (hother ▸ hkey)]
        · simp [hother]

/-- What is written last is found: the entries that are added come before those that were
there. -/
theorem find?_insertAll {more : List (String × α)} (h : Distinct more) (other : String) :
    find? other (insertAll into more) = (find? other more).or (find? other into) := by
  induction more generalizing into with
  | nil => rfl
  | cons entry more ih =>
      obtain ⟨key, b⟩ := entry
      obtain ⟨hnew, hmore⟩ := distinct_cons.1 h
      rw [insertAll, ih hmore, find?_insert]
      by_cases hkey : key = other
      · subst hkey
        rw [find?_eq_none_iff.2 hnew]
        simp [find?]
      · simp [find?, hkey]

/-! ## Entries that are written into entries -/

/-- What is written twice under a name is what was written last. -/
theorem insert_insert {b : α} : insert name a (insert name b entries) = insert name a entries := by
  induction entries with
  | nil => simp [insert]
  | cons entry rest ih =>
      by_cases hkey : entry.1 = name
      · simp [insert, hkey]
      · simp [insert, hkey, ih]

/-- A name that is present keeps its place, whatever is written before or after it. -/
theorem insert_comm {other : String} {b : α} (hmem : name ∈ names entries) (hne : other ≠ name) :
    insert name a (insert other b entries) = insert other b (insert name a entries) := by
  induction entries with
  | nil => cases hmem
  | cons entry rest ih =>
      obtain ⟨key, c⟩ := entry
      by_cases hname : key = name
      · subst hname
        simp [insert, Ne.symm hne]
      · have hrest : name ∈ names rest := (List.mem_cons.1 hmem).resolve_left (Ne.symm hname)
        by_cases hother : key = other
        · subst hother
          simp [insert, hname]
        · simp [insert, hname, hother, ih hrest]

theorem insertAll_insert_of_mem {more : List (String × α)} (hmem : name ∈ names into)
    (hnew : name ∉ names more) :
    insertAll (insert name a into) more = insert name a (insertAll into more) := by
  induction more generalizing into with
  | nil => rfl
  | cons entry more ih =>
      obtain ⟨key, b⟩ := entry
      rw [names_cons, List.mem_cons, not_or] at hnew
      have hinto : name ∈ names (insert key b into) := mem_names_insert.2 (Or.inr hmem)
      rw [insertAll, insertAll, ← insert_comm hmem (Ne.symm hnew.1), ih hinto hnew.2]

/-- One more entry may be written into the list before it is written out, or after. -/
theorem insertAll_insert {more : List (String × α)} (h : Distinct more) :
    insertAll into (insert name a more) = insert name a (insertAll into more) := by
  induction more generalizing into with
  | nil => rfl
  | cons entry more ih =>
      obtain ⟨key, b⟩ := entry
      obtain ⟨hnew, hmore⟩ := distinct_cons.1 h
      by_cases hkey : key = name
      · subst hkey
        -- The earlier entry of the name is written over before any other name is met again.
        have hmem : key ∈ names (insert key b into) := mem_names_insert.2 (Or.inl rfl)
        simp only [insert, if_true, insertAll]
        rw [← insertAll_insert_of_mem hmem hnew, insert_insert]
      · simp only [insert, hkey, if_false, insertAll]
        exact ih hmore

/-- Entries that are written one after the other may be put together first. -/
theorem insertAll_insertAll {first second : List (String × α)} (h : Distinct first) :
    insertAll into (insertAll first second) = insertAll (insertAll into first) second := by
  induction second generalizing first with
  | nil => rfl
  | cons entry second ih =>
      rw [insertAll, insertAll, ih h.insert, insertAll_insert h]

/-! ## Names after writing -/

/-- A name that is present keeps its place, and a new one goes to the end. -/
theorem names_insert : names (insert name a entries) =
    if name ∈ names entries then names entries else names entries ++ [name] := by
  induction entries with
  | nil => rfl
  | cons entry rest ih =>
      by_cases hkey : entry.1 = name
      · simp [insert, hkey]
      · have hother : name ≠ entry.1 := Ne.symm hkey
        simp only [insert, hkey, if_false, names_cons, ih, List.mem_cons, hother, false_or]
        split
        · rfl
        · rfl

/-- Writing entries adds their new names, each where it comes up first. -/
theorem names_insertAll (more : List (String × α)) : names (insertAll into more) =
    names into ++ ((names more).removeAll (names into)).eraseDups := by
  induction more generalizing into with
  | nil => simp [insertAll, names, List.removeAll]
  | cons entry more ih =>
      obtain ⟨key, a⟩ := entry
      rw [insertAll, ih, names_insert, names_cons]
      by_cases hmem : key ∈ names into
      · simp [hmem, List.removeAll]
      · rw [if_neg hmem, List.removeAll, List.removeAll,
          List.filter_cons_of_pos (by simpa using hmem), List.eraseDups_cons, List.filter_filter,
          List.append_assoc, List.singleton_append]
        congr 3
        apply List.filter_congr
        intro other _
        by_cases hother : other = key
        · simp [hother]
        · simp [hother]

/-! ## Entries that are changed one by one -/

section Map

variable {β : Type} (f : α → β)

/-- The same names, with something else under each. -/
def mapped (entries : Entries α) : Entries β :=
  entries.map fun entry => (entry.1, f entry.2)

@[simp]
theorem mapped_cons (entry : String × α) :
    mapped f (entry :: entries) = (entry.1, f entry.2) :: mapped f entries := rfl

@[simp]
theorem names_mapped : names (mapped f entries) = names entries := by
  simp [names, mapped]

theorem find?_mapped : find? name (mapped f entries) = (find? name entries).map f := by
  induction entries with
  | nil => rfl
  | cons entry rest ih =>
      by_cases hkey : entry.1 = name
      · simp [find?, hkey]
      · simp [find?, hkey, ih]

theorem insert_mapped : insert name (f a) (mapped f entries) = mapped f (insert name a entries) := by
  induction entries with
  | nil => rfl
  | cons entry rest ih =>
      by_cases hkey : entry.1 = name
      · simp [insert, hkey]
      · simp [insert, hkey, ih]

theorem insertAll_mapped {more : Entries α} :
    insertAll (mapped f into) (mapped f more) = mapped f (insertAll into more) := by
  induction more generalizing into with
  | nil => rfl
  | cons entry more ih =>
      rw [mapped_cons, insertAll, insert_mapped, ih]
      rfl

end Map

/-! ## Entries with the same names -/

section Named

variable {β : Type} {R : α → β → Prop} {between : Entries α} {others : Entries β}

/-- Two entries of one name that are related in what stands under it. -/
inductive Named (R : α → β → Prop) : String × α → String × β → Prop where
  | intro (name : String) {a : α} {b : β} : R a b → Named R (name, a) (name, b)

theorem names_eq_of_named (h : List.Forall₂ (Named R) entries others) :
    names entries = names others := by
  induction h with
  | nil => rfl
  | cons hfirst _ ih =>
      obtain ⟨name, -⟩ := hfirst
      rw [names_cons, names_cons, ih]

theorem find?_of_named (h : List.Forall₂ (Named R) entries others) (name : String) :
    Option.Rel R (find? name entries) (find? name others) := by
  induction h with
  | nil => exact .none
  | cons hfirst _ ih =>
      obtain ⟨key, hab⟩ := hfirst
      by_cases hkey : key = name
      · simp only [find?, hkey, if_true]
        exact .some hab
      · simpa only [find?, hkey, if_false] using ih

/-- Where names are distinct, what is found under one does not depend on the order. -/
theorem find?_of_perm (hdistinct : Distinct entries) (h : entries.Perm between) (name : String) :
    find? name entries = find? name between := by
  cases hfind : find? name between with
  | none =>
      rw [find?_eq_none_iff] at hfind ⊢
      intro hmem
      exact hfind ((h.map Prod.fst).mem_iff.1 hmem)
  | some a => exact find?_of_mem hdistinct (h.mem_iff.2 (mem_of_find? hfind))

/-- Under each name stand related entries, or none on either side. -/
theorem find?_of_perm_named (hdistinct : Distinct entries) (hperm : entries.Perm between)
    (h : List.Forall₂ (Named R) between others) (name : String) :
    Option.Rel R (find? name entries) (find? name others) := by
  rw [find?_of_perm hdistinct hperm]
  exact find?_of_named h name

/-- Every entry on the right comes from one of its name on the left. -/
theorem exists_of_perm_named {b : β} (hperm : entries.Perm between)
    (h : List.Forall₂ (Named R) between others) (hmem : (name, b) ∈ others) :
    ∃ a, (name, a) ∈ entries ∧ R a b := by
  obtain ⟨entry, hentry, hnamed⟩ := exists_left_of_forall₂ h hmem
  cases hnamed with
  | intro _ hab => exact ⟨_, hperm.mem_iff.2 hentry, hab⟩

theorem Distinct.of_perm_named (hdistinct : Distinct entries) (hperm : entries.Perm between)
    (h : List.Forall₂ (Named R) between others) : Distinct others := by
  have hnames : (names between).Nodup := (hperm.map Prod.fst).nodup hdistinct
  rwa [names_eq_of_named h] at hnames

end Named

end Entries

end TypedJson
