import TypedJson.Proofs.Type
import TypedJson.Proofs.Type.Parts

/-!
# Types written as data and read back

`Ty.toValue` writes a term as an object of distinct names (`Ty.headed_members`), so
`Ty.ofValue` reads each form back from its parts. The one thing that is written and not
read is a union without alternatives: by induction on the type, `Ty.ofValue` undoes
`Ty.toValue` exactly where every union of the type has an alternative
(`ofValue_toValue`).

Conversely, whatever object a type is read from, the type repeats no name and every
union of it has an alternative (`readsWellFormed`): each part that is read keeps this,
and so does the term that is built from the parts.
-/

set_option autoImplicit false

namespace TypedJson.Ty

theorem toValues_eq_map (ts : List Ty) : toValues ts = ts.map toValue := by
  induction ts with
  | nil => rfl
  | cons t rest ih => rw [toValues, ih, List.map_cons]

theorem toMembers_eq_map (named : List (String × Ty)) :
    toMembers named = named.map fun entry => (entry.1, entry.2.toValue) := by
  induction named with
  | nil => rfl
  | cons entry rest ih => rw [toMembers, ih, List.map_cons]

/-! ## The object of a term -/

/-- The parts of a term as members. -/
def partMembers : Ty → List (String × Value)
  | .basic sub _ => [("sub", .string sub.name)]
  | .literal value _ => [("value", value)]
  | .union alts _ => [("alts", .array (toValues alts))]
  | .struct fields _ => [("fields", .object (toMembers fields))]
  | .map key value _ => [("key", key.toValue), ("value", value.toValue)]
  | .list item _ => [("value", item.toValue)]
  | .tuple items _ => [("fields", .array (toValues items))]
  | .letIn bindings body _ => [("bindings", .object (toMembers bindings)), ("t", body.toValue)]
  | .ref name _ => [("name", .string name)]

/-- The note of a term as a member, if there is one. -/
def noteMember (t : Ty) : List (String × Value) :=
  (t.note.map fun v => ("meta", v)).toList

/-- The members of the object of a term. -/
def members (t : Ty) : List (String × Value) :=
  ("kind", .string t.kind.tag) :: (t.partMembers ++ t.noteMember)

theorem toValue_eq_object (t : Ty) : t.toValue = .object t.members := by
  have hwire : ∀ kind parts note, wire kind parts note =
      .object (("kind", .string kind.tag) ::
        (parts ++ (note.map fun v => ("meta", v)).toList)) := by
    intro kind parts note
    cases note <;> rfl
  cases t <;> exact hwire _ _ _

/-- The names of the parts are distinct, and none is that of the form or the note. -/
theorem nodup_partMembers (t : Ty) :
    ("kind" :: "meta" :: Entries.names t.partMembers).Nodup := by
  cases t <;> simp [partMembers, Entries.names]

theorem distinct_members (t : Ty) : Entries.Distinct t.members := by
  have hparts := t.nodup_partMembers
  cases hnote : t.note with
  | none =>
      have hnames : Entries.names t.members = "kind" :: Entries.names t.partMembers := by
        simp [members, noteMember, hnote, Entries.names]
      rw [Entries.Distinct, hnames]
      exact hparts.sublist ((List.sublist_cons_self _ _).cons_cons _)
  | some v =>
      have hnames : Entries.names t.members =
          "kind" :: (Entries.names t.partMembers ++ ["meta"]) := by
        simp [members, noteMember, hnote, Entries.names]
      rw [Entries.Distinct, hnames]
      exact ((List.perm_append_singleton _ _).cons _).nodup_iff.2 hparts

theorem find?_kind_members (t : Ty) :
    Entries.find? "kind" t.members = some (.string t.kind.tag) :=
  rfl

/-- Each part is found under its name. -/
theorem find?_members {t : Ty} {name : String} {v : Value} (h : (name, v) ∈ t.partMembers) :
    Entries.find? name t.members = some v := by
  apply Entries.find?_of_mem t.distinct_members
  exact List.mem_cons_of_mem _ (List.mem_append_left _ h)

theorem find?_meta_members (t : Ty) : Entries.find? "meta" t.members = t.note := by
  cases hnote : t.note with
  | none =>
      have hmeta : "meta" ∉ Entries.names t.members := by
        have hparts : "meta" ∉ Entries.names t.partMembers :=
          (List.nodup_cons.1 (List.nodup_cons.1 t.nodup_partMembers).2).1
        simpa [members, noteMember, hnote, Entries.names] using hparts
      exact Entries.find?_eq_none_iff.2 hmeta
  | some v =>
      have hmem : ("meta", v) ∈ t.members := by simp [members, noteMember, hnote]
      exact Entries.find?_of_mem t.distinct_members hmem

/-- The object of a term has the form and the note of that term. -/
theorem headed_members {t : Ty} (h : t.OwnDistinct) : Headed t.kind t.members t.note := by
  refine ⟨t.distinct_members, t.find?_kind_members, ?_⟩
  rw [find?_meta_members]
  cases hnote : t.note with
  | none => rfl
  | some v => rw [Option.map_some, Value.merged_of_distinct (h.1 v hnote)]

/-! ## Names in what is written -/

theorem distinct_toValues {ts : List Ty} (h : ∀ t ∈ ts, t.toValue.Distinct) :
    (Value.array (toValues ts)).Distinct := by
  simpa [Value.Distinct, Value.distinctItems_iff, toValues_eq_map] using h

theorem names_toMembers (named : List (String × Ty)) :
    Entries.names (toMembers named) = Entries.names named := by
  simp [toMembers_eq_map, Entries.names]

theorem distinct_toMembers {named : List (String × Ty)} (hnames : Entries.Distinct named)
    (h : ∀ entry ∈ named, entry.2.toValue.Distinct) :
    (Value.object (toMembers named)).Distinct := by
  rw [Value.Distinct, Value.distinctMembers_iff]
  refine ⟨?_, ?_⟩
  · rw [Entries.Distinct, names_toMembers]
    exact hnames
  · intro member hmember
    rw [toMembers_eq_map] at hmember
    obtain ⟨entry, hentry, rfl⟩ := List.mem_map.1 hmember
    exact h entry hentry

theorem distinct_object_members {t : Ty} (hnote : ∀ v ∈ t.note, v.Distinct)
    (hparts : ∀ part ∈ t.partMembers, part.2.Distinct) : t.toValue.Distinct := by
  rw [toValue_eq_object, Value.Distinct, Value.distinctMembers_iff]
  refine ⟨t.distinct_members, ?_⟩
  intro member hmember
  rcases List.mem_cons.1 hmember with rfl | hmember
  · trivial
  rcases List.mem_append.1 hmember with hpart | hmeta
  · exact hparts member hpart
  · obtain ⟨v, hv, rfl⟩ : ∃ v, t.note = some v ∧ ("meta", v) = member := by
      simpa [noteMember] using hmeta
    exact hnote v hv

/-- A type without repeated names is written as data without repeated names. -/
theorem distinct_toValue (t : Ty) (h : t.Distinct) : t.toValue.Distinct := by
  induction t using Ty.induction with
  | basic sub note => exact distinct_object_members h.1 (by simp [partMembers, Value.Distinct])
  | literal value note =>
      exact distinct_object_members h.1 (by simpa [partMembers] using h.2)
  | ref name note => exact distinct_object_members h.1 (by simp [partMembers, Value.Distinct])
  | union alts note ih =>
      obtain ⟨hown, halts⟩ := h
      rw [allIn_iff] at halts
      have hvalue := distinct_toValues fun t ht => ih t ht (halts t ht)
      exact distinct_object_members hown.1 (by simpa [partMembers] using hvalue)
  | struct fields note ih =>
      obtain ⟨hown, hfields⟩ := h
      rw [allNamed_iff] at hfields
      have hvalue := distinct_toMembers hown.2 fun field hf => ih field hf (hfields field hf)
      exact distinct_object_members hown.1 (by simpa [partMembers] using hvalue)
  | map key value note ihkey ihvalue =>
      obtain ⟨hown, hkey, hvalue⟩ := h
      have hboth := And.intro (ihkey hkey) (ihvalue hvalue)
      exact distinct_object_members hown.1 (by simpa [partMembers] using hboth)
  | list item note ih =>
      obtain ⟨hown, hitem⟩ := h
      exact distinct_object_members hown.1 (by simpa [partMembers] using ih hitem)
  | tuple items note ih =>
      obtain ⟨hown, hitems⟩ := h
      rw [allIn_iff] at hitems
      have hvalue := distinct_toValues fun t ht => ih t ht (hitems t ht)
      exact distinct_object_members hown.1 (by simpa [partMembers] using hvalue)
  | letIn bindings body note ih ihbody =>
      obtain ⟨hown, hbindings, hbody⟩ := h
      rw [allNamed_iff] at hbindings
      have hvalue := distinct_toMembers hown.2 fun entry he => ih entry he (hbindings entry he)
      have hboth := And.intro hvalue (ihbody hbody)
      exact distinct_object_members hown.1 (by simpa [partMembers] using hboth)

/-! ## Reading what was written -/

theorem listOf_toValues {ts : List Ty}
    (h : ∀ t ∈ ts, GivesIf noAlternative t.UnionsNonempty t (ofValue t.toValue)) :
    GivesIf noAlternative (∀ t ∈ ts, t.UnionsNonempty) ts (listOf (.array (toValues ts))) := by
  have hitems := ofItems_givesIf h
  rwa [List.map_id', ← toValues_eq_map] at hitems

theorem bindingsOf_toMembers {named : List (String × Ty)} (hnames : Entries.Distinct named)
    (h : ∀ entry ∈ named, GivesIf noAlternative entry.2.UnionsNonempty entry.2
      (ofValue entry.2.toValue)) :
    GivesIf noAlternative (∀ entry ∈ named, entry.2.UnionsNonempty) named
      (bindingsOf (.object (toMembers named))) := by
  have hmembers := bindingsOf_givesIf Prod.fst (by simpa using hnames) h
  rwa [List.map_id', ← toMembers_eq_map] at hmembers

/-- What was written is read back, unless a union has no alternatives. The induction is on
the type; each form is read from its parts, which are read back before. -/
theorem ofValue_toValue (t : Ty) (h : t.Distinct) :
    GivesIf noAlternative t.UnionsNonempty t (ofValue t.toValue) := by
  induction t using Ty.induction with
  | basic sub note =>
      have hread := ofValue_basic (headed_members h) (find?_members List.mem_cons_self)
      rw [toValue_eq_object]
      exact .of_ok hread trivial
  | literal value note =>
      have hread := ofValue_literal (headed_members h) (find?_members List.mem_cons_self)
      rw [Value.merged_of_distinct h.2] at hread
      rw [toValue_eq_object]
      exact .of_ok hread trivial
  | ref name note =>
      have hread := ofValue_ref (headed_members h) (find?_members List.mem_cons_self)
      rw [toValue_eq_object]
      exact .of_ok hread trivial
  | union alts note ih =>
      obtain ⟨hown, halts⟩ := h
      rw [allIn_iff] at halts
      have hread := ofValue_union (headed_members hown) (find?_members List.mem_cons_self)
        (listOf_toValues fun t ht => ih t ht (halts t ht))
      rw [toValue_eq_object]
      exact hread.congr unionsNonempty_union.symm
  | struct fields note ih =>
      obtain ⟨hown, hfields⟩ := h
      rw [allNamed_iff] at hfields
      have hread := ofValue_struct (headed_members hown) (find?_members List.mem_cons_self)
        (bindingsOf_toMembers hown.2 fun field hf => ih field hf (hfields field hf))
      rw [toValue_eq_object]
      exact hread.congr unionsNonempty_struct.symm
  | map key value note ihkey ihvalue =>
      obtain ⟨hown, hkey, hvalue⟩ := h
      have hread := ofValue_map (headed_members hown) (find?_members List.mem_cons_self)
        (find?_members (List.mem_cons_of_mem _ List.mem_cons_self)) (ihkey hkey) (ihvalue hvalue)
      rw [toValue_eq_object]
      exact hread.congr unionsNonempty_map.symm
  | list item note ih =>
      obtain ⟨hown, hitem⟩ := h
      have hread := ofValue_list (headed_members hown) (find?_members List.mem_cons_self) (ih hitem)
      rw [toValue_eq_object]
      exact hread.congr unionsNonempty_list.symm
  | tuple items note ih =>
      obtain ⟨hown, hitems⟩ := h
      rw [allIn_iff] at hitems
      have hread := ofValue_tuple (headed_members hown) (find?_members List.mem_cons_self)
        (listOf_toValues fun t ht => ih t ht (hitems t ht))
      rw [toValue_eq_object]
      exact hread.congr unionsNonempty_tuple.symm
  | letIn bindings body note ih ihbody =>
      obtain ⟨hown, hbindings, hbody⟩ := h
      rw [allNamed_iff] at hbindings
      have hread := ofValue_letIn (headed_members hown) (find?_members List.mem_cons_self)
        (find?_members (List.mem_cons_of_mem _ List.mem_cons_self))
        (bindingsOf_toMembers hown.2 fun entry he => ih entry he (hbindings entry he))
        (ihbody hbody)
      rw [toValue_eq_object]
      exact hread.congr unionsNonempty_letIn.symm

/-! ## What can be read -/

/-- The type repeats no name, and every union of it has an alternative. -/
structure WellFormed (t : Ty) : Prop where
  distinct : t.Distinct
  unionsNonempty : t.UnionsNonempty

/-- The names are distinct and stand for well-formed types. -/
def NamedWellFormed (named : Bindings) : Prop :=
  Entries.Distinct named ∧ ∀ entry ∈ named, entry.2.WellFormed

/-- The parts that have been read so far are well formed. -/
structure Parts.WellFormed (parts : Parts) : Prop where
  value : ∀ v ∈ parts.value, v.Distinct
  alts : ∀ ts ∈ parts.alts, ts ≠ [] ∧ ∀ t ∈ ts, t.WellFormed
  fields : ∀ named ∈ parts.fields, NamedWellFormed named
  key : ∀ t ∈ parts.key, t.WellFormed
  item : ∀ t ∈ parts.item, t.WellFormed
  items : ∀ ts ∈ parts.items, ∀ t ∈ ts, t.WellFormed
  bindings : ∀ named ∈ parts.bindings, NamedWellFormed named
  body : ∀ t ∈ parts.body, t.WellFormed

/-- Types that are read from the value are well formed, however it is read. -/
structure ReadsWellFormed (v : Value) : Prop where
  term : ∀ t, ofValue v = .ok t → t.WellFormed
  list : ∀ ts, listOf v = .ok ts → ∀ t ∈ ts, t.WellFormed
  bindings : ∀ named, bindingsOf v = .ok named → NamedWellFormed named

theorem need_eq_ok {α : Type} {name : String} {part : Option α} {a : α}
    (h : need name part = .ok a) : part = some a := by
  cases part with
  | none => cases h
  | some b =>
      cases h
      rfl

theorem distinct_of_noteOf {members : List (String × Value)} {note : Option Value}
    (h : noteOf members = .ok note) : ∀ v ∈ note, v.Distinct := by
  unfold noteOf at h
  split at h
  · cases h
    simp
  · cases h
    rintro v ⟨⟩
    exact Value.distinct_merged _
  · cases h

/-- A term that is built from well-formed parts is well formed. -/
theorem wellFormed_of_build {kind : Kind} {parts : Parts} {note : Option Value} {t : Ty}
    (hparts : parts.WellFormed) (hnote : ∀ v ∈ note, v.Distinct)
    (h : build kind parts note = .ok t) : t.WellFormed := by
  cases kind with
  | basic =>
      obtain ⟨sub, -, h⟩ := exists_of_bind_eq_ok h
      cases h
      exact ⟨⟨hnote, trivial⟩, trivial⟩
  | literal =>
      obtain ⟨value, hvalue, h⟩ := exists_of_bind_eq_ok h
      cases h
      exact ⟨⟨hnote, hparts.value value (need_eq_ok hvalue)⟩, trivial⟩
  | union =>
      obtain ⟨alts, halts, h⟩ := exists_of_bind_eq_ok h
      cases h
      obtain ⟨hne, hall⟩ := hparts.alts alts (need_eq_ok halts)
      refine ⟨⟨⟨hnote, trivial⟩, allIn_iff.2 fun t ht => (hall t ht).distinct⟩, ?_⟩
      exact unionsNonempty_union.2 ⟨fun t ht => (hall t ht).unionsNonempty, hne⟩
  | struct =>
      obtain ⟨fields, hfields, h⟩ := exists_of_bind_eq_ok h
      cases h
      obtain ⟨hnames, hall⟩ := hparts.fields fields (need_eq_ok hfields)
      refine ⟨⟨⟨hnote, hnames⟩, allNamed_iff.2 fun field hf => (hall field hf).distinct⟩, ?_⟩
      exact unionsNonempty_struct.2 fun field hf => (hall field hf).unionsNonempty
  | map =>
      obtain ⟨key, hkey, h⟩ := exists_of_bind_eq_ok h
      obtain ⟨value, hvalue, h⟩ := exists_of_bind_eq_ok h
      cases h
      have hk := hparts.key key (need_eq_ok hkey)
      have hv := hparts.item value (need_eq_ok hvalue)
      refine ⟨⟨⟨hnote, trivial⟩, hk.distinct, hv.distinct⟩, ?_⟩
      exact unionsNonempty_map.2 ⟨hk.unionsNonempty, hv.unionsNonempty⟩
  | list =>
      obtain ⟨item, hitem, h⟩ := exists_of_bind_eq_ok h
      cases h
      have hi := hparts.item item (need_eq_ok hitem)
      exact ⟨⟨⟨hnote, trivial⟩, hi.distinct⟩, unionsNonempty_list.2 hi.unionsNonempty⟩
  | tuple =>
      obtain ⟨items, hitems, h⟩ := exists_of_bind_eq_ok h
      cases h
      have hall := hparts.items items (need_eq_ok hitems)
      refine ⟨⟨⟨hnote, trivial⟩, allIn_iff.2 fun t ht => (hall t ht).distinct⟩, ?_⟩
      exact unionsNonempty_tuple.2 fun t ht => (hall t ht).unionsNonempty
  | letIn =>
      obtain ⟨bindings, hbindings, h⟩ := exists_of_bind_eq_ok h
      obtain ⟨body, hbody, h⟩ := exists_of_bind_eq_ok h
      cases h
      obtain ⟨hnames, hall⟩ := hparts.bindings bindings (need_eq_ok hbindings)
      have hb := hparts.body body (need_eq_ok hbody)
      refine ⟨⟨⟨hnote, hnames⟩, allNamed_iff.2 fun entry he => (hall entry he).distinct,
        hb.distinct⟩, ?_⟩
      exact unionsNonempty_letIn.2 ⟨fun entry he => (hall entry he).unionsNonempty,
        hb.unionsNonempty⟩
  | ref =>
      obtain ⟨name, -, h⟩ := exists_of_bind_eq_ok h
      cases h
      exact ⟨⟨hnote, trivial⟩, trivial⟩

/-- Each member that is read adds a well-formed part. -/
theorem wellFormed_of_partsOf {kind : Kind} {members : List (String × Value)}
    (hmembers : ∀ member ∈ members, ReadsWellFormed member.2) {parts parts' : Parts}
    (hparts : parts.WellFormed) (h : partsOf kind members parts = .ok parts') :
    parts'.WellFormed := by
  induction members generalizing parts with
  | nil =>
      cases h
      exact hparts
  | cons member rest ih =>
      obtain ⟨name, v⟩ := member
      obtain ⟨hv, hrest⟩ := List.forall_mem_cons.1 hmembers
      unfold partsOf at h
      split at h
      -- The cases come in the order of `partsOf`: the last one passes the member over, the
      -- others store what they have read.
      case h_12 => exact ih hrest hparts h
      all_goals obtain ⟨_, -, h⟩ := exists_of_bind_eq_ok h
      case h_2 =>
        refine ih hrest ?_ h
        exact { hparts with value := by simp [Value.distinct_merged] }
      all_goals obtain ⟨a, ha, h⟩ := exists_of_bind_eq_ok h
      case h_3 =>
        split at h
        · cases h
        next hne =>
          refine ih hrest ?_ h
          have halts : a ≠ [] ∧ ∀ t ∈ a, t.WellFormed := ⟨by simpa using hne, hv.list a ha⟩
          exact { hparts with alts := by simpa using halts }
      all_goals refine ih hrest ?_ h
      case h_1 | h_11 => exact { hparts with }
      case h_4 => exact { hparts with fields := by simpa using hv.bindings a ha }
      case h_5 => exact { hparts with key := by simpa using hv.term a ha }
      case h_6 | h_7 => exact { hparts with item := by simpa using hv.term a ha }
      case h_8 => exact { hparts with items := by simpa using hv.list a ha }
      case h_9 => exact { hparts with bindings := by simpa using hv.bindings a ha }
      case h_10 => exact { hparts with body := by simpa using hv.term a ha }

/-- Each term of a list is read from an item. -/
theorem exists_of_mem_ofItems {items : List Value} {ts : List Ty}
    (h : ofItems items = .ok ts) : ∀ t ∈ ts, ∃ v ∈ items, ofValue v = .ok t := by
  induction items generalizing ts with
  | nil =>
      cases h
      simp
  | cons v rest ih =>
      obtain ⟨t, ht, h⟩ := exists_of_bind_eq_ok h
      obtain ⟨more, hmore, h⟩ := exists_of_bind_eq_ok h
      cases h
      intro u hu
      rcases List.mem_cons.1 hu with rfl | hu
      · exact ⟨v, List.mem_cons_self, ht⟩
      · obtain ⟨w, hw, hread⟩ := ih hmore u hu
        exact ⟨w, List.mem_cons_of_mem _ hw, hread⟩

/-- Each named term is read from a member of its name. -/
theorem exists_of_mem_ofMembers {members : List (String × Value)} {named : List (String × Ty)}
    (h : ofMembers members = .ok named) :
    ∀ entry ∈ named, ∃ v, (entry.1, v) ∈ members ∧ ofValue v = .ok entry.2 := by
  induction members generalizing named with
  | nil =>
      cases h
      simp
  | cons member rest ih =>
      obtain ⟨t, ht, h⟩ := exists_of_bind_eq_ok h
      obtain ⟨more, hmore, h⟩ := exists_of_bind_eq_ok h
      cases h
      intro entry hentry
      rcases List.mem_cons.1 hentry with rfl | hentry
      · exact ⟨member.2, List.mem_cons_self, ht⟩
      · obtain ⟨w, hw, hread⟩ := ih hmore entry hentry
        exact ⟨w, List.mem_cons_of_mem _ hw, hread⟩

theorem wellFormed_of_ofItems {items : List Value} (hitems : ∀ v ∈ items, ReadsWellFormed v)
    {ts : List Ty} (h : ofItems items = .ok ts) : ∀ t ∈ ts, t.WellFormed := by
  intro t ht
  obtain ⟨v, hv, hread⟩ := exists_of_mem_ofItems h t ht
  exact (hitems v hv).term t hread

theorem wellFormed_of_ofMembers {members : List (String × Value)}
    (hmembers : ∀ member ∈ members, ReadsWellFormed member.2) {named : List (String × Ty)}
    (h : ofMembers members = .ok named) : ∀ entry ∈ named, entry.2.WellFormed := by
  intro entry hentry
  obtain ⟨v, hv, hread⟩ := exists_of_mem_ofMembers h entry hentry
  exact (hmembers _ hv).term entry.2 hread

/-- Whatever is read is well formed. The induction is on the value that is read. -/
theorem readsWellFormed (v : Value) : ReadsWellFormed v := by
  induction v using Value.induction with
  | array items ih =>
      constructor
      · intro t h
        cases h
      · intro ts h
        exact wellFormed_of_ofItems ih h
      · intro named h
        cases h
  | object members ih =>
      constructor
      · intro t h
        rw [ofValue] at h
        obtain ⟨note, hnote, h⟩ := exists_of_bind_eq_ok h
        obtain ⟨kind, -, h⟩ := exists_of_bind_eq_ok h
        obtain ⟨parts, hparts, h⟩ := exists_of_bind_eq_ok h
        have hstart : Parts.WellFormed {} := by constructor <;> simp
        exact wellFormed_of_build (wellFormed_of_partsOf ih hstart hparts)
          (distinct_of_noteOf hnote) h
      · intro ts h
        cases h
      · intro named h
        obtain ⟨entries, hentries, h⟩ := exists_of_bind_eq_ok h
        cases h
        refine ⟨Entries.distinct_ofList entries, fun entry hentry => ?_⟩
        exact wellFormed_of_ofMembers ih hentries entry (Entries.mem_of_mem_ofList hentry)
  | _ =>
      constructor
      all_goals
        intro result h
        cases h

/-! ## The round trip -/

/-- Reading undoes writing exactly where every union has an alternative. Unions that a
literal or a note only describes do not count: they are values there. Nothing that can be
read has a union without alternatives. -/
theorem ofValue_toValue_roundTrip :
    (∀ t : Ty, t.Distinct →
      ((∃ u, ofValue t.toValue = .ok u) ↔ t.UnionsNonempty) ∧
      ∀ u, ofValue t.toValue = .ok u → u = t) ∧
    ∀ v u, ofValue v = .ok u → u.Distinct ∧ u.UnionsNonempty := by
  refine ⟨fun t hdistinct => ⟨⟨?_, ?_⟩, ?_⟩, ?_⟩
  · rintro ⟨u, hu⟩
    exact ((ofValue_toValue t hdistinct).of_eq_ok hu).1
  · intro hnonempty
    exact ⟨t, (ofValue_toValue t hdistinct).ok hnonempty⟩
  · intro u hu
    exact ((ofValue_toValue t hdistinct).of_eq_ok hu).2
  · intro v u hu
    have hread := (readsWellFormed v).term u hu
    exact ⟨hread.distinct, hread.unionsNonempty⟩

/-- A type whose literal and note describe a union without alternatives comes back, with
its null note and the order of its names; with such a union in a binding it does not. An
object that gives its form by number and repeats a field is read as a type that does not. -/
theorem ofValue_toValue_roundTrip_let :
    let empty : Value := (Ty.union [] none).toValue
    let around (alts : List Ty) : Ty :=
      .letIn [("self", .union alts (some .null)), ("key", .literal empty none)]
        (.struct [("z", .map (.ref "key" none) (.ref "self" none) none),
          ("a", .tuple [.list (.basic .void none) none] none)] (some empty)) none
    let whole := around [.ref "self" none]
    let nested := around [.union [] none]
    let field : Value := (Ty.basic .int none).toValue
    let repeated : Value := .object
      [("fields", .object [("a", field), ("a", field)]), ("kind", .number (.ofUInt64 3))]
    let read : Ty := .struct [("a", .basic .int none)] none
    (whole.Distinct ∧ ofValue whole.toValue = .ok whole) ∧
      (nested.Distinct ∧ ¬ ∃ u, ofValue nested.toValue = .ok u) ∧
      ofValue repeated = .ok read ∧ read.Distinct ∧ read.UnionsNonempty := by
  intro empty around whole nested field repeated read
  have hwhole : whole.Distinct := by decide +kernel +zetaReduce
  have hnested : nested.Distinct := by decide +kernel +zetaReduce
  have hread : ofValue repeated = .ok read := by decide +kernel +zetaReduce
  refine ⟨⟨hwhole, ?_⟩, ⟨hnested, ?_⟩, hread, ofValue_toValue_roundTrip.2 repeated read hread⟩
  · obtain ⟨hreads, hsame⟩ := ofValue_toValue_roundTrip.1 whole hwhole
    obtain ⟨u, hu⟩ := hreads.2 (by decide +kernel +zetaReduce)
    rw [hsame u hu] at hu
    exact hu
  · exact mt (ofValue_toValue_roundTrip.1 nested hnested).1.1 (by decide +kernel +zetaReduce)

end TypedJson.Ty
