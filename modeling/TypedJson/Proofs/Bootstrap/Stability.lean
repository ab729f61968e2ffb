import TypedJson.Proofs.Bootstrap.Agreement
import TypedJson.Proofs.Bootstrap.Documents
import TypedJson.Proofs.Check.Acceptance

/-!
# Documents that are written again

A schema document may hold members that nothing asks for, and its members may come in any order.
Writing the schema that was read from it gives another document: the members that were asked for,
in one order. It is read again as the same schema, by the same checker (`read_again`).

The two documents take the same levels. An object is accepted as a term in four levels more than
its parts and its note (`checkAt_term_eq_ok_iff`). Both objects have the same note and, under the
same names, parts of which the one is the other read and written again (`Slot.Rewrites`). So what
is written again is nested no deeper and is accepted in as many levels (`NoDeeper`), by induction
on the nesting of what was read.
-/

set_option autoImplicit false

namespace TypedJson

open Check Bootstrap

/-! ## Terms level by level -/

namespace Bootstrap

variable {limit : UInt64} {levels : Nat} {env : Env} {term : Option Value} {kind : Kind}
  {members : List (String × Value)}

/-- The object names the form, and its parts and its note are accepted in so many levels. -/
structure PartsAccepted (limit : UInt64) (levels : Nat) (env : Env) (kind : Kind)
    (members : List (String × Value)) : Prop where
  named : Entries.find? "kind" members = some (.string kind.tag)
  parts : ∀ slot ∈ kind.slots,
    checkAt limit levels env (Entries.find? slot.1 members) slot.2.type = .ok ()
  note : checkAt limit levels env (Entries.find? "meta" members) (ref "maybe-data") = .ok ()

theorem checkAt_word (text : String) :
    checkAt limit (levels + 1) env (some (.string text)) (word text) = .ok () := by
  simp [checkAt, level, word, Value.agrees]

/-- Another word is refused, and not given up. -/
theorem checkAt_word_of_ne {text other : String} (hne : text ≠ other) :
    checkAt limit (levels + 1) env (some (.string text)) (word other) =
      .error (.literalMismatch (word other) (some (.string text))) := by
  simp [checkAt, level, word, Value.agrees, hne]

theorem level_formOf_eq_ok_iff :
    level (checkAt limit levels) env term (formOf kind) = .ok () ↔
      ∃ members, term = some (.object members) ∧ PartsAccepted limit levels env kind members := by
  rw [formOf, form, level_struct_eq_ok_iff]
  simp only [List.forall_mem_cons, List.forall_mem_append, List.forall_mem_map, List.not_mem_nil,
    false_implies, implies_true, and_true]
  constructor
  · rintro ⟨members, rfl, hkind, hparts, hnote⟩
    have hword := conforms_word_iff.1 (checkAt_sound limit levels env _ _ hkind)
    exact ⟨members, rfl, hword, hparts, hnote⟩
  · rintro ⟨members, rfl, h⟩
    refine ⟨members, rfl, ?_, h.parts, h.note⟩
    obtain ⟨fewer, rfl, -⟩ := exists_of_checkAt_eq_ok h.note
    rw [h.named]
    exact checkAt_word kind.tag

/-- An object that names one form is refused by every other, at the name of the form. -/
theorem settled_formOf_of_ne {other : Kind}
    (hkind : Entries.find? "kind" members = some (.string kind.tag)) (hne : other ≠ kind) :
    Settled (checkAt limit (levels + 2) env (some (.object members)) (formOf other)) := by
  have htag : kind.tag ≠ other.tag := by
    intro heq
    exact hne (Kind.tag_inj heq).symm
  have hrefused : checkAt limit (levels + 2) env (some (.object members)) (formOf other) =
      .error (.literalMismatch (word other.tag) (some (.string kind.tag))) := by
    rw [checkAt, formOf, form]
    simp only [level, every, hkind, checkAt_word_of_ne htag]
  rw [hrefused]
  rfl

/-- An object is accepted as a term in four levels more than its parts and its note. The forms that
it does not name are tried before, and none of them looks at a part. -/
theorem checkAt_term_eq_ok_iff (henv : Resolves env typeBindings) :
    checkAt limit levels env term Bootstrap.term = .ok () ↔
      ∃ fewer kind members, levels = fewer + 4 ∧ term = some (.object members) ∧
        PartsAccepted limit fewer env kind members := by
  have htype := henv _ _ find?_type
  have hform := fun kind => henv _ _ (find?_typeBindings kind)
  constructor
  · intro h
    obtain ⟨belowRef, rfl, href⟩ := exists_of_checkAt_eq_ok h
    rw [Bootstrap.term, ref, level_ref htype] at href
    obtain ⟨belowUnion, rfl, hunion⟩ := exists_of_checkAt_eq_ok href
    obtain ⟨alt, hmem, halt⟩ := exists_of_union_eq_ok hunion
    obtain ⟨kind, -, rfl⟩ := List.mem_map.1 hmem
    obtain ⟨belowName, rfl, hname⟩ := exists_of_checkAt_eq_ok halt
    rw [ref, level_ref (hform kind)] at hname
    obtain ⟨fewer, rfl, hstruct⟩ := exists_of_checkAt_eq_ok hname
    obtain ⟨members, rfl, hparts⟩ := level_formOf_eq_ok_iff.1 hstruct
    exact ⟨fewer, kind, members, rfl, rfl, hparts⟩
  · rintro ⟨fewer, kind, members, rfl, rfl, hparts⟩
    obtain ⟨least, rfl, -⟩ := exists_of_checkAt_eq_ok hparts.note
    have hnamed : ∀ other : Kind,
        checkAt limit (least + 3) env (some (.object members)) (ref other.binding) =
          checkAt limit (least + 2) env (some (.object members)) (formOf other) := by
      intro other
      exact level_ref (hform other)
    have haccepted : checkAt limit (least + 3) env (some (.object members)) (ref kind.binding) =
        .ok () := by
      rw [hnamed kind]
      exact level_formOf_eq_ok_iff.2 ⟨members, rfl, hparts⟩
    have hunion : checkAt limit (least + 4) env (some (.object members))
        (.union (Kind.all.map fun kind => ref kind.binding) none) = .ok () := by
      apply level_union_eq_ok (List.mem_map.2 ⟨kind, kind.mem_all, rfl⟩) haccepted
      intro alt halt
      obtain ⟨other, -, rfl⟩ := List.mem_map.1 halt
      by_cases hother : other = kind
      · subst hother
        rw [haccepted]
        exact settled_ok
      · rw [hnamed other]
        exact settled_formOf_of_ne hparts.named hother
    exact (level_ref htype).trans hunion

end Bootstrap

/-! ## Parts that are read and written again -/

/-- The second value is what the first is read as in the part, written again. What is no term is
written as it was read. -/
def Slot.Rewrites : Slot → Value → Value → Prop
  | .term, v, w => ∃ t, Ty.ofValue v = .ok t ∧ w = t.toValue
  | .terms, v, w => ∃ ts, Ty.listOf v = .ok ts ∧ w = .array (Ty.toValues ts)
  | .named, v, w => ∃ named, Ty.bindingsOf v = .ok named ∧ w = .object (Ty.toMembers named)
  | _, v, w => w = v

/-- The member is the part of that name of the object, read and written again. -/
def RewrittenFrom (members : List (String × Value)) (slot : String × Slot)
    (member : String × Value) : Prop :=
  member.1 = slot.1 ∧ ∃ part, Entries.find? slot.1 members = some part ∧
    slot.2.Rewrites part member.2

/-- The term has the form and the note of the object, and its parts are those of the object,
read and written again. -/
structure Ty.ReadFrom (t : Ty) (kind : Kind) (members : List (String × Value)) : Prop where
  form : t.kind = kind
  note : t.note = Entries.find? "meta" members
  parts : List.Forall₂ (RewrittenFrom members) kind.slots t.partMembers

/-- A term is read from the parts that its form asks for. One case for each form. -/
theorem Ty.readFrom_of_ofValue {members : List (String × Value)} {kind : Kind} {t : Ty}
    (hdistinct : (Value.object members).Distinct)
    (hkind : Entries.find? "kind" members = some (.string kind.tag))
    (hparts : ∀ slot ∈ kind.slots, ∃ part, Entries.find? slot.1 members = some part ∧
      slot.2.Reads part) (h : Ty.ofValue (.object members) = .ok t) : t.ReadFrom kind members := by
  obtain ⟨hnames, hmembers⟩ := hdistinct
  rw [Value.distinctMembers_iff] at hmembers
  have hmerged : ∀ {name v}, Entries.find? name members = some v → v.merged = v := by
    intro name v hfind
    exact Value.merged_of_distinct (hmembers _ (Entries.mem_of_find? hfind))
  have hnote : (Entries.find? "meta" members).map Value.merged = Entries.find? "meta" members := by
    cases hfind : Entries.find? "meta" members with
    | none => rfl
    | some v => rw [Option.map_some, hmerged hfind]
  have hhead : Ty.Headed kind members (Entries.find? "meta" members) := ⟨hnames, hkind, hnote⟩
  cases kind with
  | basic =>
      obtain ⟨part, hfind, sub, rfl⟩ := hparts ("sub", .sub) List.mem_cons_self
      cases h.symm.trans (Ty.ofValue_basic hhead hfind)
      exact ⟨rfl, rfl, .cons ⟨rfl, _, hfind, rfl⟩ .nil⟩
  | literal =>
      obtain ⟨part, hfind, -⟩ := hparts ("value", .data) List.mem_cons_self
      cases h.symm.trans (Ty.ofValue_literal hhead hfind)
      exact ⟨rfl, rfl, .cons ⟨rfl, _, hfind, hmerged hfind⟩ .nil⟩
  | ref =>
      obtain ⟨part, hfind, name, rfl⟩ := hparts ("name", .text) List.mem_cons_self
      cases h.symm.trans (Ty.ofValue_ref hhead hfind)
      exact ⟨rfl, rfl, .cons ⟨rfl, _, hfind, rfl⟩ .nil⟩
  | list =>
      obtain ⟨part, hfind, item, hitem⟩ := hparts ("value", .term) List.mem_cons_self
      obtain ⟨hclean, rfl⟩ := (Ty.ofValue_list hhead hfind hitem).of_eq_ok h
      exact ⟨rfl, rfl, .cons ⟨rfl, _, hfind, item, hitem.ok hclean, rfl⟩ .nil⟩
  | tuple =>
      obtain ⟨part, hfind, items, -, hitems⟩ := hparts ("fields", .terms) List.mem_cons_self
      obtain ⟨hclean, rfl⟩ := (Ty.ofValue_tuple hhead hfind hitems).of_eq_ok h
      exact ⟨rfl, rfl, .cons ⟨rfl, _, hfind, items, hitems.ok hclean, rfl⟩ .nil⟩
  | struct =>
      obtain ⟨part, hfind, fields, hfields⟩ := hparts ("fields", .named) List.mem_cons_self
      obtain ⟨hclean, rfl⟩ := (Ty.ofValue_struct hhead hfind hfields).of_eq_ok h
      exact ⟨rfl, rfl, .cons ⟨rfl, _, hfind, fields, hfields.ok hclean, rfl⟩ .nil⟩
  | union =>
      obtain ⟨part, hfind, alts, -, halts⟩ := hparts ("alts", .terms) List.mem_cons_self
      obtain ⟨⟨hclean, -⟩, rfl⟩ := (Ty.ofValue_union hhead hfind halts).of_eq_ok h
      exact ⟨rfl, rfl, .cons ⟨rfl, _, hfind, alts, halts.ok hclean, rfl⟩ .nil⟩
  | map =>
      obtain ⟨keyPart, hkeyFind, key, hkey⟩ := hparts ("key", .term) List.mem_cons_self
      obtain ⟨part, hfind, value, hvalue⟩ :=
        hparts ("value", .term) (List.mem_cons_of_mem _ List.mem_cons_self)
      obtain ⟨⟨hclean, hclean'⟩, rfl⟩ :=
        (Ty.ofValue_map hhead hkeyFind hfind hkey hvalue).of_eq_ok h
      exact ⟨rfl, rfl, .cons ⟨rfl, _, hkeyFind, key, hkey.ok hclean, rfl⟩
        (.cons ⟨rfl, _, hfind, value, hvalue.ok hclean', rfl⟩ .nil)⟩
  | letIn =>
      obtain ⟨part, hfind, bindings, hbindings⟩ := hparts ("bindings", .named) List.mem_cons_self
      obtain ⟨bodyPart, hbodyFind, body, hbody⟩ :=
        hparts ("t", .term) (List.mem_cons_of_mem _ List.mem_cons_self)
      obtain ⟨⟨hclean, hclean'⟩, rfl⟩ :=
        (Ty.ofValue_letIn hhead hfind hbodyFind hbindings hbody).of_eq_ok h
      exact ⟨rfl, rfl, .cons ⟨rfl, _, hfind, bindings, hbindings.ok hclean, rfl⟩
        (.cons ⟨rfl, _, hbodyFind, body, hbody.ok hclean', rfl⟩ .nil)⟩

/-! ## What is written again takes no more levels -/

/-- The second value is nested no deeper than the first, and it is accepted in the part in as many
levels. -/
structure NoDeeper (env : Env) (slot : Slot) (v w : Value) : Prop where
  nesting : w.nesting ≤ v.nesting
  accepted : ∀ {limit levels}, checkAt limit levels env (some v) slot.type = .ok () →
    checkAt limit levels env (some w) slot.type = .ok ()

theorem noDeeper_terms {env : Env} {items : List Value} {ts : List Ty}
    (hread : Ty.ofItems items = .ok ts)
    (h : ∀ v ∈ items, ∀ t, Ty.ofValue v = .ok t → NoDeeper env .term v t.toValue) :
    NoDeeper env .terms (.array items) (.array (Ty.toValues ts)) := by
  have hsource : ∀ t ∈ ts, ∃ v ∈ items, NoDeeper env .term v t.toValue := by
    intro t ht
    obtain ⟨v, hv, hof⟩ := Ty.exists_of_mem_ofItems hread t ht
    exact ⟨v, hv, h v hv t hof⟩
  rw [Ty.toValues_eq_map]
  constructor
  · apply Value.nesting_array_le_iff.2
    rw [List.forall_mem_map]
    intro t ht
    obtain ⟨v, hv, hno⟩ := hsource t ht
    exact Nat.le_trans hno.nesting (Nat.le_of_lt_succ (Value.nesting_lt_array hv))
  · intro limit levels haccepted
    obtain ⟨fewer, rfl, haccepted⟩ := exists_of_checkAt_eq_ok haccepted
    obtain ⟨others, heq, hitems⟩ := level_list_eq_ok_iff.1 haccepted
    cases heq
    refine level_list_eq_ok_iff.2 ⟨_, rfl, ?_⟩
    rw [List.forall_mem_map]
    intro t ht
    obtain ⟨v, hv, hno⟩ := hsource t ht
    exact hno.accepted (hitems v hv)

theorem noDeeper_named {env : Env} {members : List (String × Value)} {named : List (String × Ty)}
    (hread : Ty.bindingsOf (.object members) = .ok named)
    (h : ∀ member ∈ members, ∀ t, Ty.ofValue member.2 = .ok t →
      NoDeeper env .term member.2 t.toValue) :
    NoDeeper env .named (.object members) (.object (Ty.toMembers named)) := by
  obtain ⟨entries, hentries, hread⟩ := exists_of_bind_eq_ok hread
  cases hread
  have hsource : ∀ entry ∈ Entries.ofList entries, ∃ v, (entry.1, v) ∈ members ∧
      NoDeeper env .term v entry.2.toValue := by
    intro entry hentry
    obtain ⟨v, hv, hof⟩ :=
      Ty.exists_of_mem_ofMembers hentries entry (Entries.mem_of_mem_ofList hentry)
    exact ⟨v, hv, h _ hv entry.2 hof⟩
  rw [Ty.toMembers_eq_map]
  constructor
  · apply Value.nesting_object_le_iff.2
    rw [List.forall_mem_map]
    intro entry hentry
    obtain ⟨v, hv, hno⟩ := hsource entry hentry
    exact Nat.le_trans hno.nesting (Nat.le_of_lt_succ (Value.nesting_lt_object hv))
  · intro limit levels haccepted
    obtain ⟨fewer, rfl, haccepted⟩ := exists_of_checkAt_eq_ok haccepted
    obtain ⟨others, heq, hmembers⟩ := level_map_eq_ok_iff.1 haccepted
    cases heq
    refine level_map_eq_ok_iff.2 ⟨_, rfl, ?_⟩
    rw [List.forall_mem_map]
    intro entry hentry
    obtain ⟨v, hv, hno⟩ := hsource entry hentry
    obtain ⟨hkey, hvalue⟩ := hmembers _ hv
    exact ⟨hkey, hno.accepted hvalue⟩

section Terms

variable {env : Env} {kind : Kind} {members : List (String × Value)} {t : Ty}
  (hfrom : t.ReadFrom kind members)
  (hparts : ∀ slot ∈ kind.slots, ∀ part w, Entries.find? slot.1 members = some part →
    slot.2.Rewrites part w → NoDeeper env slot.2 part w)

include hfrom hparts

/-- Whatever member the written term has, the object has one that is nested as deep. -/
theorem nesting_toValue_le_of_readFrom :
    t.toValue.nesting ≤ (Value.object members).nesting := by
  have hmember : ∀ {name part}, Entries.find? name members = some part →
      part.nesting ≤ Value.nestingMembers members := by
    intro name part hfind
    exact Nat.le_of_lt_succ (Value.nesting_lt_object (Entries.mem_of_find? hfind))
  rw [Ty.toValue_eq_object]
  apply Value.nesting_object_le_iff.2
  intro member hmem
  rw [Ty.members, List.mem_cons, List.mem_append] at hmem
  rcases hmem with rfl | hpart | hnote
  · exact Nat.zero_le _
  · obtain ⟨slot, hslot, -, part, hfind, hrewrites⟩ := exists_left_of_forall₂ hfrom.parts hpart
    exact Nat.le_trans (hparts slot hslot part _ hfind hrewrites).nesting (hmember hfind)
  · rw [Ty.noteMember, Option.mem_toList, Option.map_eq_some_iff] at hnote
    obtain ⟨v, hv, rfl⟩ := hnote
    exact hmember (hfrom.note.symm.trans hv)

/-- The written term is accepted in as many levels as the object that it was read from. -/
theorem checkAt_toValue_of_readFrom (henv : Resolves env typeBindings)
    (hkind : Entries.find? "kind" members = some (.string kind.tag)) {limit : UInt64}
    {levels : Nat}
    (haccepted : checkAt limit levels env (some (.object members)) Bootstrap.term = .ok ()) :
    checkAt limit levels env (some t.toValue) Bootstrap.term = .ok () := by
  obtain ⟨fewer, other, others, rfl, heq, h⟩ := (checkAt_term_eq_ok_iff henv).1 haccepted
  cases heq
  have hother : other = kind := Kind.eq_of_find?_kind hkind h.named
  subst hother
  rw [Ty.toValue_eq_object]
  refine (checkAt_term_eq_ok_iff henv).2 ⟨fewer, other, _, rfl, rfl, ?_, ?_, ?_⟩
  · rw [Ty.find?_kind_members, hfrom.form]
  · intro slot hslot
    obtain ⟨⟨name, w⟩, hmem, rfl, part, hfind, hrewrites⟩ :=
      exists_right_of_forall₂ hfrom.parts hslot
    rw [Ty.find?_members hmem]
    have hpart := h.parts slot hslot
    rw [hfind] at hpart
    exact (hparts slot hslot part w hfind hrewrites).accepted hpart
  · rw [Ty.find?_meta_members, hfrom.note]
    exact h.note

end Terms

/-- What is written again is nested no deeper and is accepted in as many levels. The induction is on
the nesting of the part, as what a term holds lies one container further in. -/
theorem noDeeper_of_rewrites {env : Env} (henv : Resolves env typeBindings) (v : Value)
    (hdistinct : v.Distinct) (slot : Slot) (hconforms : Conforms env (some v) slot.type) (w : Value)
    (h : slot.Rewrites v w) : NoDeeper env slot v w := by
  induction hn : v.nesting using Nat.strongRecOn generalizing v slot w with
  | ind n ih =>
      subst hn
      cases slot with
      | sub | data | text =>
          cases h
          exact ⟨Nat.le_refl _, id⟩
      | term =>
          obtain ⟨t, hread, rfl⟩ := h
          obtain ⟨kind, members, heq, hkind, hslots⟩ := (conforms_term_iff henv).1 hconforms
          cases heq
          have hmembers := hdistinct.2
          rw [Value.distinctMembers_iff] at hmembers
          have hpart : ∀ slot ∈ kind.slots, ∀ part, Entries.find? slot.1 members = some part →
              Conforms env (some part) slot.2.type ∧ part.Distinct := by
            intro slot hslot part hfind
            exact ⟨hfind ▸ hslots slot hslot, hmembers _ (Entries.mem_of_find? hfind)⟩
          have hfrom : t.ReadFrom kind members := by
            apply Ty.readFrom_of_ofValue hdistinct hkind _ hread
            intro slot hslot
            obtain ⟨part, hfind⟩ := exists_of_conforms henv slot.2 (hslots slot hslot)
            obtain ⟨hconforms, hdistinct⟩ := hpart slot hslot part hfind
            exact ⟨part, hfind, reads_of_conforms henv part hdistinct slot.2 hconforms⟩
          have hparts : ∀ slot ∈ kind.slots, ∀ part w, Entries.find? slot.1 members = some part →
              slot.2.Rewrites part w → NoDeeper env slot.2 part w := by
            intro slot hslot part w hfind hrewrites
            obtain ⟨hconforms, hdistinct⟩ := hpart slot hslot part hfind
            exact ih _ (Value.nesting_lt_object (Entries.mem_of_find? hfind)) part hdistinct slot.2
              hconforms w hrewrites rfl
          exact ⟨nesting_toValue_le_of_readFrom hfrom hparts,
            checkAt_toValue_of_readFrom hfrom hparts henv hkind⟩
      | terms =>
          obtain ⟨ts, hread, rfl⟩ := h
          obtain ⟨items, heq, hitems⟩ := conforms_list_iff.1 hconforms
          cases heq
          rw [Value.Distinct, Value.distinctItems_iff] at hdistinct
          apply noDeeper_terms hread
          intro u hu t ht
          exact ih _ (Value.nesting_lt_array hu) u (hdistinct u hu) .term (hitems u hu) _
            ⟨t, ht, rfl⟩ rfl
      | named =>
          obtain ⟨named, hread, rfl⟩ := h
          obtain ⟨members, heq, hmembers⟩ := conforms_named_iff.1 hconforms
          cases heq
          rw [Value.Distinct, Value.distinctMembers_iff] at hdistinct
          apply noDeeper_named hread
          intro member hmember t ht
          exact ih _ (Value.nesting_lt_object hmember) member.2 (hdistinct.2 member hmember) .term
            (hmembers member hmember) _ ⟨t, ht, rfl⟩ rfl

/-! ## Documents -/

namespace Schema

variable {checker : Checker} {text : String} {v : Value} {s : Schema}

/-- The document has the parts of the schema, and the type is read from the term in it. -/
structure ReadFrom (s : Schema) (members : List (String × Value)) (term : Value) : Prop where
  found : Entries.find? "t" members = some term
  type : Ty.ofValue term = .ok s.t
  version : Entries.find? "version" members = some (.string s.version)
  encoding : Entries.find? "encoding" members = some (.string s.encoding)
  note : Entries.find? "meta" members = some s.note

/-- A schema that is read from a document that conforms has the known version and encoding. -/
theorem exists_readFrom {env : Env} (hdistinct : v.Distinct)
    (hconforms : Conforms env (some v) schemaType) (hread : ofValue v = .ok s) :
    ∃ members term, v = .object members ∧ s.ReadFrom members term ∧
      Conforms (env.extend typeBindings) (some term) Bootstrap.term ∧
      s.version = knownVersion ∧ s.encoding = Encoding.json.name := by
  obtain ⟨members, term, t, note, rfl, hfind, hversion, hencoding, hnote, ht, hof⟩ :=
    exists_parts_of_conforms hdistinct hconforms
  obtain ⟨hnames, hmembers⟩ := hdistinct
  rw [Value.distinctMembers_iff] at hmembers
  obtain ⟨hclean, rfl⟩ :=
    (ofValue_givesIf hnames hfind hversion hencoding hnote hof).of_eq_ok hread
  have hmerged := Value.merged_of_distinct (hmembers _ (Entries.mem_of_find? hnote))
  refine ⟨members, term, rfl, ⟨hfind, hof.ok hclean, hversion, hencoding, ?_⟩, ht, rfl, rfl⟩
  rw [hnote, hmerged]

/-- The document of the schema is accepted in as many levels as the document that it was read
from: only the term of the type is another. -/
theorem checkAt_toValue {env : Env} {members : List (String × Value)} {term : Value}
    (hfrom : s.ReadFrom members term)
    (hno : NoDeeper (env.extend typeBindings) .term term s.t.toValue) {limit : UInt64}
    {levels : Nat} (h : checkAt limit levels env (some (.object members)) schemaType = .ok ()) :
    checkAt limit levels env (some s.toValue) schemaType = .ok () := by
  obtain ⟨fewer, rfl, h⟩ := exists_of_checkAt_eq_ok h
  obtain ⟨others, heq, hfields⟩ := level_struct_eq_ok_iff.1 h
  cases heq
  simp only [List.forall_mem_cons, hfrom.found, hfrom.version, hfrom.encoding,
    hfrom.note] at hfields
  obtain ⟨ht, hversion, hencoding, hnote, -⟩ := hfields
  refine level_struct_eq_ok_iff.2 ⟨_, rfl, ?_⟩
  simp only [List.forall_mem_cons]
  refine ⟨?_, hversion, hencoding, hnote, by simp⟩
  obtain ⟨least, rfl, ht⟩ := exists_of_checkAt_eq_ok ht
  exact hno.accepted ht

/-- A schema that was read is accepted from its own text, by the same checker. -/
theorem accepts_text (hv : Accepts checker text v) (hread : ofValue v = .ok s) :
    Accepts checker s.text s.toValue ∧ s.Distinct ∧ s.t.UnionsNonempty ∧
      s.version = knownVersion ∧ s.encoding = Encoding.json.name := by
  obtain ⟨hparse, hcheck⟩ := hv
  obtain ⟨hdistinct, hnesting⟩ := readable_of_parse hparse
  obtain ⟨members, term, rfl, hfrom, hconforms, hversion, hencoding⟩ :=
    exists_readFrom hdistinct (Checker.conforms_of_checkGiven hcheck) hread
  have hmembers := hdistinct.2
  rw [Value.distinctMembers_iff] at hmembers
  have hterm := Entries.mem_of_find? hfrom.found
  have hnote := Entries.mem_of_find? hfrom.note
  have hno := noDeeper_of_rewrites (resolves_extend .empty typeBindings) term (hmembers _ hterm)
    .term hconforms s.t.toValue ⟨s.t, hfrom.type, rfl⟩
  have hwell := (Ty.readsWellFormed term).term s.t hfrom.type
  have hs : s.Distinct := ⟨hwell.distinct, hmembers _ hnote⟩
  have hdepth : s.toValue.nesting ≤ (Value.object members).nesting :=
    nesting_toValue_le
      (Nat.le_trans hno.nesting (Nat.le_of_lt_succ (Value.nesting_lt_object hterm)))
      (Nat.le_of_lt_succ (Value.nesting_lt_object hnote))
  refine ⟨⟨?_, ?_⟩, hs, hwell.unionsNonempty, hversion, hencoding⟩
  · exact parse_compact ⟨distinct_toValue hs, Nat.le_trans hdepth hnesting⟩
  · rw [Checker.check, Checker.checkIn, Checker.checkGiven_eq_reach] at hcheck ⊢
    exact checkAt_toValue hfrom hno hcheck

/-- A schema that was read can be used, and it is read again from its own text. Its version and its
encoding are known, so that its codec is there for every checker, as is the codec of documents
itself. The same checker reads the text of the schema as the same schema, whatever other text the
schema was read from. -/
theorem read_again (checker : Checker) (text : String) (s : Schema)
    (h : read checker text = .ok s) :
    s.config = .ok .json ∧
    (∀ other, Codec.ofSchema s other = .ok ⟨s.t, .json, other⟩) ∧
    (∀ note other, Codec.ofSchema (schemaSchema note) other = .ok (documents other)) ∧
    read checker s.text = .ok s := by
  obtain ⟨v, hv, hread⟩ := exists_of_read_eq_ok h
  obtain ⟨haccepted, hdistinct, hunions, hversion, hencoding⟩ := accepts_text hv hread
  refine ⟨?_, ?_, ?_, ?_⟩
  · rw [config, hversion, hencoding]
    rfl
  · exact Codec.ofSchema_of_known hversion hencoding
  · intro note other
    exact Codec.ofSchema_of_known rfl rfl other
  · rw [read_of_accepted haccepted, (ofValue_toValue hdistinct).ok hunions]
    rfl

/-- The first document has gaps, members out of order, one that nothing asks for and a version
that is given twice. The second has none of this. -/
theorem read_again_stray :
    let text := "\n\x7b \"version\": \"9\", \"meta\": 0,\n  \"t\": \x7b\"x\": [], " ++
      "\"sub\": \"int\", \"kind\": \"type-basic\"\x7d,\n  \"encoding\": \"json\", \"version\": \"0\" \x7d"
    let s : Schema := .json (.basic .int none) (.number (.int 0 (by decide)))
    read {} text = .ok s ∧
    s.text = "\x7b\"t\":\x7b\"kind\":\"type-basic\",\"sub\":\"int\"\x7d,\"version\":\"0\"," ++
      "\"encoding\":\"json\",\"meta\":0\x7d" ∧
    s.config = .ok .json ∧ (∀ other, Codec.ofSchema s other = .ok ⟨s.t, .json, other⟩) ∧
    read {} s.text = .ok s := by
  intro text s
  have hread : read {} text = .ok s := by decide +kernel +zetaReduce
  obtain ⟨hconfig, hcodec, -, hagain⟩ := read_again {} text s hread
  refine ⟨hread, ?_, hconfig, hcodec, hagain⟩
  decide +kernel +zetaReduce

end Schema

end TypedJson
