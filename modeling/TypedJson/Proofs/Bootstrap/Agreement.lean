import TypedJson.Proofs.Bootstrap.Described
import TypedJson.Proofs.Check.Settling
import TypedJson.Proofs.Codec
import TypedJson.Proofs.Schema

/-!
# The schema of schemas and the reader of schemas agree

A document that conforms to `Bootstrap.schemaType` is read by `Schema.ofValue`, with one
exception. `Value.TermIn` says which values of a document stand in type position; a
document is refused exactly when one of them is a union without alternatives. The proof
goes through the parts of a term: `Slot.Reads` says that a part is read unless such a
union is in it, and every part that conforms is read in this sense (`reads_of_conforms`).
-/

set_option autoImplicit false

namespace TypedJson

open Check Bootstrap

/-- The values that stand in type position directly in a part. -/
def Slot.termsIn : Slot → Value → List Value
  | .term, v => [v]
  | .terms, .array items => items
  | .named, .object members => members.map Prod.snd
  | _, _ => []

namespace Value

/-- `u` stands in type position in the term `v`: it is the term itself, or it stands so in
a term that a part of `v` holds, as the form of `v` prescribes. -/
inductive TermIn (u : Value) : Value → Prop where
  | self : TermIn u u
  | inside {members : List (String × Value)} {kind : Kind} {name : String} {slot : Slot}
      {part v : Value} :
      Entries.find? "kind" members = some (.string kind.tag) → (name, slot) ∈ kind.slots →
      Entries.find? name members = some part → v ∈ slot.termsIn part → TermIn u v →
      TermIn u (.object members)

/-- The value is a union term without alternatives. -/
def IsEmptyUnion (v : Value) : Prop :=
  ∃ members, v = .object members ∧
    Entries.find? "kind" members = some (.string "type-union") ∧
    Entries.find? "alts" members = some (.array [])

/-- A union without alternatives stands in type position in the term. -/
def HasEmptyUnion (v : Value) : Prop :=
  ∃ u, TermIn u v ∧ IsEmptyUnion u

/-- The type of the document has a union without alternatives. -/
def EmptyUnionUnderType (v : Value) : Prop :=
  ∃ members t, v = .object members ∧ Entries.find? "t" members = some t ∧ t.HasEmptyUnion

end Value

/-- No term in the part has a union without alternatives. -/
def Slot.Clean (slot : Slot) (part : Value) : Prop :=
  ∀ v ∈ slot.termsIn part, ¬ v.HasEmptyUnion

theorem Slot.clean_term_iff {v : Value} : Slot.term.Clean v ↔ ¬ v.HasEmptyUnion :=
  List.forall_mem_singleton

/-- A tag names one form only. -/
theorem Kind.eq_of_find?_kind {members : List (String × Value)} {kind other : Kind}
    (hkind : Entries.find? "kind" members = some (.string kind.tag))
    (hother : Entries.find? "kind" members = some (.string other.tag)) : other = kind := by
  rw [hkind, Option.some.injEq, Value.string.injEq] at hother
  exact (Kind.tag_inj hother).symm

/-- An empty union in an object that names a form is the object itself, or it is in one of
the parts of that form. -/
theorem Slot.clean_object_iff {members : List (String × Value)} {kind : Kind}
    (hkind : Entries.find? "kind" members = some (.string kind.tag)) :
    Slot.term.Clean (.object members) ↔
      (kind = .union → Entries.find? "alts" members ≠ some (.array [])) ∧
      ∀ slot ∈ kind.slots, ∀ part, Entries.find? slot.1 members = some part →
        slot.2.Clean part := by
  rw [clean_term_iff]
  constructor
  · intro hclean
    refine ⟨?_, ?_⟩
    · rintro rfl halts
      exact hclean ⟨_, .self, members, rfl, hkind, halts⟩
    · intro slot hslot part hpart v hv
      rintro ⟨u, hin, hempty⟩
      exact hclean ⟨u, .inside hkind hslot hpart hv hin, hempty⟩
  · rintro ⟨hself, hparts⟩ ⟨u, hin, hempty⟩
    cases hin with
    | self =>
        obtain ⟨_, heq, hunion, halts⟩ := hempty
        cases heq
        have hself' : Kind.union = kind := Kind.eq_of_find?_kind hkind hunion
        exact hself hself'.symm halts
    | inside hother hslot hpart hv hin =>
        cases Kind.eq_of_find?_kind hkind hother
        exact hparts _ hslot _ hpart _ hv ⟨u, hin, hempty⟩

/-! ## Parts that are read -/

/-- The part is read. Terms in it may be refused, for a union without alternatives and for
nothing else. -/
def Slot.Reads : Slot → Value → Prop
  | .sub, v => ∃ sub : Basic, v = .string sub.name
  | .data, _ => True
  | .text, v => ∃ s, v = .string s
  | .term, v => ∃ t, GivesIf Ty.noAlternative (Slot.term.Clean v) t (Ty.ofValue v)
  | .terms, v => ∃ ts, (ts = [] ↔ v = .array []) ∧
      GivesIf Ty.noAlternative (Slot.terms.Clean v) ts (Ty.listOf v)
  | .named, v => ∃ named, GivesIf Ty.noAlternative (Slot.named.Clean v) named (Ty.bindingsOf v)

/-- Terms that are read one by one. -/
theorem exists_terms {α : Type} {as : List α} {value : α → Value}
    (h : ∀ a ∈ as, Slot.term.Reads (value a)) :
    ∃ term : α → Ty, ∀ a ∈ as,
      GivesIf Ty.noAlternative (¬ (value a).HasEmptyUnion) (term a) (Ty.ofValue (value a)) := by
  have hread : ∀ a, ∃ t, a ∈ as →
      GivesIf Ty.noAlternative (¬ (value a).HasEmptyUnion) t (Ty.ofValue (value a)) := by
    intro a
    by_cases ha : a ∈ as
    · obtain ⟨t, ht⟩ := h a ha
      exact ⟨t, fun _ => ht.congr Slot.clean_term_iff⟩
    · exact ⟨.ref "" none, fun hmem => absurd hmem ha⟩
  exact Classical.skolem.1 hread

theorem reads_terms {items : List Value} (h : ∀ v ∈ items, Slot.term.Reads v) :
    Slot.terms.Reads (.array items) := by
  obtain ⟨term, hterm⟩ := exists_terms h
  have hitems := Ty.ofItems_givesIf hterm
  rw [List.map_id'] at hitems
  exact ⟨items.map term, by simp, hitems⟩

theorem reads_named {members : List (String × Value)} (hdistinct : Entries.Distinct members)
    (h : ∀ member ∈ members, Slot.term.Reads member.2) :
    Slot.named.Reads (.object members) := by
  obtain ⟨term, hterm⟩ := exists_terms h
  have hnames : Entries.Distinct (members.map fun member => (member.1, term member)) := by
    simpa [Entries.Distinct, Entries.names, Function.comp_def] using hdistinct
  have hmembers := Ty.bindingsOf_givesIf Prod.fst hnames hterm
  rw [List.map_id'] at hmembers
  refine ⟨_, hmembers.congr ?_⟩
  rw [Slot.Clean, Slot.termsIn, List.forall_mem_map]

/-- An object that names a form and has its parts is read, one case for each form. -/
theorem reads_object {members : List (String × Value)} {kind : Kind}
    (hdistinct : Entries.Distinct members)
    (hkind : Entries.find? "kind" members = some (.string kind.tag))
    (h : ∀ slot ∈ kind.slots, ∃ part, Entries.find? slot.1 members = some part ∧
      slot.2.Reads part) : Slot.term.Reads (.object members) := by
  have hhead : Ty.Headed kind members ((Entries.find? "meta" members).map Value.merged) :=
    ⟨hdistinct, hkind, rfl⟩
  have hclean := Slot.clean_object_iff hkind
  cases kind with
  | basic =>
      obtain ⟨part, hfind, sub, rfl⟩ := h ("sub", .sub) List.mem_cons_self
      refine ⟨_, .of_ok (Ty.ofValue_basic hhead hfind) (hclean.2 ?_)⟩
      simp [Kind.slots, Slot.Clean, Slot.termsIn]
  | literal =>
      obtain ⟨part, hfind, -⟩ := h ("value", .data) List.mem_cons_self
      refine ⟨_, .of_ok (Ty.ofValue_literal hhead hfind) (hclean.2 ?_)⟩
      simp [Kind.slots, Slot.Clean, Slot.termsIn]
  | ref =>
      obtain ⟨part, hfind, name, rfl⟩ := h ("name", .text) List.mem_cons_self
      refine ⟨_, .of_ok (Ty.ofValue_ref hhead hfind) (hclean.2 ?_)⟩
      simp [Kind.slots, Slot.Clean, Slot.termsIn]
  | list =>
      obtain ⟨part, hfind, item, hitem⟩ := h ("value", .term) List.mem_cons_self
      refine ⟨_, (Ty.ofValue_list hhead hfind hitem).congr ?_⟩
      simp [hclean, Kind.slots, hfind]
  | tuple =>
      obtain ⟨part, hfind, items, -, hitems⟩ := h ("fields", .terms) List.mem_cons_self
      refine ⟨_, (Ty.ofValue_tuple hhead hfind hitems).congr ?_⟩
      simp [hclean, Kind.slots, hfind]
  | struct =>
      obtain ⟨part, hfind, fields, hfields⟩ := h ("fields", .named) List.mem_cons_self
      refine ⟨_, (Ty.ofValue_struct hhead hfind hfields).congr ?_⟩
      simp [hclean, Kind.slots, hfind]
  | union =>
      obtain ⟨part, hfind, alts, hnone, halts⟩ := h ("alts", .terms) List.mem_cons_self
      refine ⟨_, (Ty.ofValue_union hhead hfind halts).congr ?_⟩
      simp [hclean, Kind.slots, hfind, hnone, and_comm]
  | map =>
      obtain ⟨keyPart, hkeyFind, key, hkey⟩ := h ("key", .term) List.mem_cons_self
      obtain ⟨part, hfind, value, hvalue⟩ :=
        h ("value", .term) (List.mem_cons_of_mem _ List.mem_cons_self)
      refine ⟨_, (Ty.ofValue_map hhead hkeyFind hfind hkey hvalue).congr ?_⟩
      simp [hclean, Kind.slots, hkeyFind, hfind]
  | letIn =>
      obtain ⟨part, hfind, bindings, hbindings⟩ := h ("bindings", .named) List.mem_cons_self
      obtain ⟨bodyPart, hbodyFind, body, hbody⟩ :=
        h ("t", .term) (List.mem_cons_of_mem _ List.mem_cons_self)
      refine ⟨_, (Ty.ofValue_letIn hhead hfind hbodyFind hbindings hbody).congr ?_⟩
      simp [hclean, Kind.slots, hfind, hbodyFind]

/-! ## Parts that conform -/

section Conforming

variable {env : Env} (henv : Resolves env typeBindings)

include henv

/-- No part may be missing. -/
theorem exists_of_conforms (slot : Slot) {term : Option Value}
    (h : Conforms env term slot.type) : ∃ part, term = some part := by
  cases slot with
  | sub =>
      obtain ⟨sub, rfl⟩ := conforms_sub_iff.1 h
      exact ⟨_, rfl⟩
  | data => exact (conforms_data_iff (henv "data" _ rfl)).1 h
  | text =>
      obtain ⟨s, rfl⟩ := conforms_string_iff.1 h
      exact ⟨_, rfl⟩
  | term =>
      obtain ⟨kind, members, rfl, -⟩ := (conforms_term_iff henv).1 h
      exact ⟨_, rfl⟩
  | terms =>
      obtain ⟨items, rfl, -⟩ := conforms_list_iff.1 h
      exact ⟨_, rfl⟩
  | named =>
      obtain ⟨members, rfl, -⟩ := conforms_named_iff.1 h
      exact ⟨_, rfl⟩

/-- Every part that conforms is read. The induction is on the nesting of the part: what a
term holds, and the terms in a list or under names, lie one container further in. -/
theorem reads_of_conforms (v : Value) (hdistinct : v.Distinct) (slot : Slot)
    (h : Conforms env (some v) slot.type) : slot.Reads v := by
  induction hn : v.nesting using Nat.strongRecOn generalizing v slot with
  | ind n ih =>
      subst hn
      cases slot with
      | sub =>
          obtain ⟨sub, heq⟩ := conforms_sub_iff.1 h
          exact ⟨sub, Option.some.inj heq⟩
      | data => trivial
      | text =>
          obtain ⟨s, heq⟩ := conforms_string_iff.1 h
          exact ⟨s, Option.some.inj heq⟩
      | term =>
          obtain ⟨kind, members, heq, hkind, hslots⟩ := (conforms_term_iff henv).1 h
          cases heq
          obtain ⟨hnames, hmembers⟩ := hdistinct
          rw [Value.distinctMembers_iff] at hmembers
          apply reads_object hnames hkind
          intro slot hslot
          obtain ⟨part, hpart⟩ := exists_of_conforms henv slot.2 (hslots slot hslot)
          have hmem := Entries.mem_of_find? hpart
          have hconforms := hslots slot hslot
          rw [hpart] at hconforms
          exact ⟨part, hpart, ih _ (Value.nesting_lt_object hmem) part (hmembers _ hmem) slot.2
            hconforms rfl⟩
      | terms =>
          obtain ⟨items, heq, hitems⟩ := conforms_list_iff.1 h
          cases heq
          rw [Value.Distinct, Value.distinctItems_iff] at hdistinct
          apply reads_terms
          intro u hu
          exact ih _ (Value.nesting_lt_array hu) u (hdistinct u hu) .term (hitems u hu) rfl
      | named =>
          obtain ⟨members, heq, hmembers⟩ := conforms_named_iff.1 h
          cases heq
          rw [Value.Distinct, Value.distinctMembers_iff] at hdistinct
          apply reads_named hdistinct.1
          intro member hmember
          exact ih _ (Value.nesting_lt_object hmember) member.2 (hdistinct.2 member hmember) .term
            (hmembers member hmember) rfl

end Conforming

/-! ## Documents -/

theorem emptyUnionUnderType_iff {members : List (String × Value)} {t : Value}
    (h : Entries.find? "t" members = some t) :
    (Value.object members).EmptyUnionUnderType ↔ t.HasEmptyUnion := by
  constructor
  · rintro ⟨others, u, heq, hu, hempty⟩
    cases heq
    cases h.symm.trans hu
    exact hempty
  · intro hempty
    exact ⟨members, t, rfl, h, hempty⟩

namespace Schema

/-- A document that conforms has the four parts of a schema, and the term of its type is read,
unless it has a union without alternatives. -/
theorem exists_parts_of_conforms {env : Env} {v : Value} (hdistinct : v.Distinct)
    (h : Conforms env (some v) schemaType) :
    ∃ members term t note, v = .object members ∧ Entries.find? "t" members = some term ∧
      Entries.find? "version" members = some (.string knownVersion) ∧
      Entries.find? "encoding" members = some (.string Encoding.json.name) ∧
      Entries.find? "meta" members = some note ∧
      Conforms (env.extend typeBindings) (some term) Bootstrap.term ∧
      GivesIf Ty.noAlternative (Slot.term.Clean term) t (Ty.ofValue term) := by
  obtain ⟨members, heq, ht, hversion, hencoding, note, hnote⟩ := conforms_schemaType_iff.1 h
  cases heq
  obtain ⟨-, hmembers⟩ := hdistinct
  rw [Value.distinctMembers_iff] at hmembers
  have henv := resolves_extend env typeBindings
  obtain ⟨term, hfind⟩ := exists_of_conforms henv .term ht
  rw [hfind] at ht
  obtain ⟨t, hread⟩ :=
    reads_of_conforms henv term (hmembers _ (Entries.mem_of_find? hfind)) .term ht
  exact ⟨members, term, t, note, rfl, hfind, hversion, hencoding, hnote, ht, hread⟩

/-- A document that conforms is read, unless its type has a union without alternatives. -/
theorem givesIf_of_conforms {env : Env} {v : Value} (hdistinct : v.Distinct)
    (h : Conforms env (some v) schemaType) :
    ∃ s, GivesIf noAlternative (¬ v.EmptyUnionUnderType) s (ofValue v) := by
  obtain ⟨members, term, t, note, rfl, hfind, hversion, hencoding, hnote, -, hread⟩ :=
    exists_parts_of_conforms hdistinct h
  refine ⟨_, (ofValue_givesIf hdistinct.1 hfind hversion hencoding hnote hread).congr ?_⟩
  rw [Slot.clean_term_iff, emptyUnionUnderType_iff hfind]

/-- What passes the check of the schema of schemas is a schema, but for unions without
alternatives. The reader of schemas refuses such a document exactly when an empty union
stands in type position under its type, and what it makes of the document is what reading
the text gives. So a text is refused for its shape for this one reason, and everything else
that is accepted is read. -/
theorem ofValue_fails_iff_emptyUnion (checker : Checker) (text : String) :
    (∀ v room, TypedJson.parse text = .ok v →
      checker.checkGiven room .empty (some v) schemaType = .ok () →
      ((∃ e, ofValue v = .error e) ↔ v.EmptyUnionUnderType)) ∧
    (∀ v, Accepts checker text v → read checker text = (ofValue v).mapError .shape) ∧
    (∀ e, read checker text = .error (.shape e) ↔
      e = noAlternative ∧ ∃ v, Accepts checker text v ∧ v.EmptyUnionUnderType) ∧
    ∀ v, Accepts checker text v → ¬ v.EmptyUnionUnderType →
      ∃ s, ofValue v = .ok s ∧ read checker text = .ok s := by
  -- What was parsed repeats no name, and what was accepted conforms, with any depth and room.
  have hreads : ∀ v room, TypedJson.parse text = .ok v →
      checker.checkGiven room .empty (some v) schemaType = .ok () →
      ∃ s, GivesIf noAlternative (¬ v.EmptyUnionUnderType) s (ofValue v) := by
    intro v room hparse hcheck
    exact givesIf_of_conforms (readable_of_parse hparse).1 (Checker.conforms_of_checkGiven hcheck)
  refine ⟨?_, fun v hv => read_of_accepted hv, ?_, ?_⟩
  · intro v room hparse hcheck
    obtain ⟨s, hs⟩ := hreads v room hparse hcheck
    constructor
    · rintro ⟨e, he⟩
      exact not_not.1 (hs.of_eq_error he).1
    · intro hempty
      exact ⟨noAlternative, hs.refused (not_not_intro hempty)⟩
  · intro e
    constructor
    · intro he
      obtain ⟨v, hv, hfails⟩ := exists_of_read_eq_shape he
      obtain ⟨s, hs⟩ := hreads v checker.hasRoom hv.1 hv.2
      obtain ⟨hempty, hreason⟩ := hs.of_eq_error hfails
      exact ⟨hreason, v, hv, not_not.1 hempty⟩
    · rintro ⟨rfl, v, hv, hempty⟩
      obtain ⟨s, hs⟩ := hreads v checker.hasRoom hv.1 hv.2
      rw [read_of_accepted hv, hs.refused (not_not_intro hempty)]
      rfl
  · intro v hv hnone
    obtain ⟨s, hs⟩ := hreads v checker.hasRoom hv.1 hv.2
    rw [read_of_accepted hv, hs.ok hnone]
    exact ⟨s, rfl, rfl⟩

/-- A list of an empty union is refused, though the members come out of order. A list of a
literal that looks like an empty union is read, with a stray member of another form. -/
theorem ofValue_fails_iff_emptyUnion_list :
    let document (item : Value) : Value := .object
      [("x", .bool true), ("meta", .null), ("encoding", .string "json"),
        ("t", .object [("alts", .array []), ("value", item), ("kind", .string "type-list")]),
        ("version", .string "0")]
    let union : Value := .object [("alts", .array []), ("kind", .string "type-union")]
    let literal : Value := .object [("kind", .string "type-literal"), ("value", union)]
    (Accepts {} (document union).compact (document union) ∧
      (∃ e, ofValue (document union) = .error e) ∧
      read {} (document union).compact = .error (.shape noAlternative)) ∧
    Accepts {} (document literal).compact (document literal) ∧
      ¬ (document literal).EmptyUnionUnderType ∧
      ∃ s, ofValue (document literal) = .ok s ∧
        read {} (document literal).compact = .ok s := by
  intro document union literal
  have hunion : Accepts {} (document union).compact (document union) :=
    ⟨parse_compact (by constructor <;> decide +kernel +zetaReduce),
      by decide +kernel +zetaReduce⟩
  have hliteral : Accepts {} (document literal).compact (document literal) :=
    ⟨parse_compact (by constructor <;> decide +kernel +zetaReduce),
      by decide +kernel +zetaReduce⟩
  have hitem : ("value", Slot.term) ∈ Kind.list.slots := List.mem_cons_self
  have hempty : (document union).EmptyUnionUnderType :=
    ⟨_, _, rfl, rfl, union, .inside rfl hitem rfl List.mem_cons_self .self, _, rfl, rfl, rfl⟩
  have hnone : ¬ (document literal).EmptyUnionUnderType := by
    intro hstands
    obtain ⟨e, he⟩ := ((ofValue_fails_iff_emptyUnion {} _).1 _ (Checker.hasRoom {}) hliteral.1
      hliteral.2).2 hstands
    have hok : (ofValue (document literal)).isOk = true := by decide +kernel +zetaReduce
    rw [he] at hok
    cases hok
  refine ⟨⟨hunion, ?_, ?_⟩, hliteral, hnone, ?_⟩
  · exact ((ofValue_fails_iff_emptyUnion {} _).1 _ (Checker.hasRoom {}) hunion.1 hunion.2).2 hempty
  · exact ((ofValue_fails_iff_emptyUnion {} _).2.2.1 _).2 ⟨rfl, _, hunion, hempty⟩
  · exact (ofValue_fails_iff_emptyUnion {} _).2.2.2 _ hliteral hnone

end Schema

end TypedJson
