import TypedJson.Bootstrap
import TypedJson.Proofs.Check.Conformance
import TypedJson.Proofs.Type.Wire

/-!
# What the bootstrap types describe

`Bootstrap.typeBindings` has one binding for each form of term, and each of them is the
struct of the parts that `Kind.slots` lists (`find?_typeBindings`). From this one fact:
`data` takes every value that is there (`conforms_data_iff`), `type` takes the objects
that name a form and have its parts, whatever else they hold (`conforms_term_iff`), and
every type as data is such an object, all the way down (`conforms_toValue`).
-/

set_option autoImplicit false

namespace TypedJson

open Check Bootstrap

/-- What a part holds, as a type in the scope of the bootstrap names. -/
def Slot.type : Slot → Ty
  | .sub => .union (Basic.all.map fun sub => word sub.name) none
  | .data => Bootstrap.ref "data"
  | .text => Bootstrap.basic .string
  | .term => Bootstrap.term
  | .terms => .list Bootstrap.term none
  | .named => Bootstrap.named

/-- The name that is bound to the form. -/
def Kind.binding : Kind → String
  | .basic => "basic"
  | .literal => "literal"
  | .union => "union"
  | .struct => "struct"
  | .map => "map"
  | .list => "list"
  | .tuple => "tuple"
  | .letIn => "let"
  | .ref => "ref"

theorem Kind.mem_all (kind : Kind) : kind ∈ all := by
  cases kind <;> decide

namespace Bootstrap

/-- The struct of a form: its parts as `Kind.slots` lists them. -/
def formOf (kind : Kind) : Ty :=
  form kind (kind.slots.map fun slot => (slot.1, slot.2.type))

theorem find?_type : Entries.find? "type" typeBindings =
    some (.union (Kind.all.map fun kind => ref kind.binding) none) :=
  rfl

theorem find?_typeBindings (kind : Kind) :
    Entries.find? kind.binding typeBindings = some (formOf kind) := by
  cases kind <;> rfl

/-- The names of the scope have the meaning that the scope gives them. -/
def Resolves (env : Env) (scope : Bindings) : Prop :=
  ∀ name meaning, Entries.find? name scope = some meaning → env.lookup name = some meaning

theorem resolves_extend (env : Env) (scope : Bindings) : Resolves (env.extend scope) scope := by
  intro name meaning h
  simp only [Env.lookup, Env.extend, Env.lookupIn, h]

variable {env : Env} {term : Option Value}

theorem conforms_word_iff {text : String} :
    Conforms env term (word text) ↔ term = some (.string text) := by
  rw [word, conforms_literal_iff]
  constructor
  · rintro ⟨v, rfl, hagrees⟩
    cases v with
    | string s => simpa [Value.agrees] using hagrees
    | _ => simp [Value.agrees] at hagrees
  · rintro rfl
    exact ⟨_, rfl, by simp [Value.agrees]⟩

theorem conforms_string_iff :
    Conforms env term (basic .string) ↔ ∃ s, term = some (.string s) := by
  rw [basic, conforms_basic_iff]
  constructor
  · rintro ⟨⟩
    exact ⟨_, rfl⟩
  · rintro ⟨s, rfl⟩
    exact .string s

theorem conforms_sub_iff :
    Conforms env term Slot.sub.type ↔ ∃ sub : Basic, term = some (.string sub.name) := by
  rw [Slot.type, conforms_union_iff]
  simp only [List.mem_map, exists_exists_and_eq_and, conforms_word_iff]
  constructor
  · rintro ⟨sub, -, h⟩
    exact ⟨sub, h⟩
  · rintro ⟨sub, h⟩
    exact ⟨sub, by cases sub <;> decide, h⟩

theorem conforms_named_iff :
    Conforms env term Slot.named.type ↔ ∃ members, term = some (.object members) ∧
      ∀ member ∈ members, Conforms env (some member.2) Bootstrap.term := by
  simp only [Slot.type, named, conforms_map_iff, conforms_string_iff, Option.some.injEq,
    Value.string.injEq, exists_eq', true_and]

theorem conforms_toValues {ts : List Ty}
    (h : ∀ t ∈ ts, Conforms env (some t.toValue) Bootstrap.term) :
    Conforms env (some (.array (Ty.toValues ts))) Slot.terms.type := by
  refine conforms_list_iff.2 ⟨_, rfl, ?_⟩
  rw [Ty.toValues_eq_map]
  exact List.forall_mem_map.2 h

theorem conforms_toMembers {entries : List (String × Ty)}
    (h : ∀ entry ∈ entries, Conforms env (some entry.2.toValue) Bootstrap.term) :
    Conforms env (some (.object (Ty.toMembers entries))) Slot.named.type := by
  refine conforms_named_iff.2 ⟨_, rfl, ?_⟩
  rw [Ty.toMembers_eq_map]
  exact List.forall_mem_map.2 h

/-! ## Any value -/

section Data

variable (hdata : env.lookup "data" = some dataUnion)

include hdata

/-- Every value conforms to `data`. The induction is on the value; items and members
refer back to `data`. -/
theorem conforms_data (v : Value) : Conforms env (some v) (ref "data") := by
  refine .ref hdata ?_
  rw [dataUnion, conforms_union_iff]
  induction v using Value.induction with
  | null => exact ⟨basic .null, by simp, .basic .null⟩
  | bool b => exact ⟨basic .bool, by simp, .basic (.bool b)⟩
  | number n => exact ⟨basic .float, by simp, .basic (.float n)⟩
  | string s => exact ⟨basic .string, by simp, .basic (.string s)⟩
  | array items ih =>
      refine ⟨.list (ref "data") none, by simp, .list fun v hv => .ref hdata ?_⟩
      exact conforms_union_iff.2 (ih v hv)
  | object members ih =>
      refine ⟨.map (basic .string) (ref "data") none, by simp, ?_⟩
      refine .map (fun name v _ => .basic (.string name)) fun name v hmem => .ref hdata ?_
      exact conforms_union_iff.2 (ih (name, v) hmem)

theorem conforms_data_iff : Conforms env term (ref "data") ↔ ∃ v, term = some v := by
  constructor
  · intro h
    cases term with
    | some v => exact ⟨v, rfl⟩
    | none =>
        rw [ref, conforms_ref_iff hdata] at h
        simp [dataUnion, basic, conforms_union_iff, conforms_basic_iff, conforms_map_iff,
          conforms_list_iff, hasKind_none_iff] at h
  · rintro ⟨v, rfl⟩
    exact conforms_data hdata v

end Data

/-- Every value conforms to the type of all values. -/
theorem conforms_dataType_iff : Conforms env term dataType ↔ ∃ v, term = some v := by
  rw [dataType, conforms_letIn_iff]
  exact conforms_data_iff (resolves_extend env _ _ _ rfl)

/-! ## Terms -/

section Terms

variable (henv : Resolves env typeBindings)

include henv

theorem conforms_maybe_data : Conforms env term (ref "maybe-data") := by
  refine .ref (henv "maybe-data" _ rfl) ?_
  rw [Ty.maybe, conforms_union_iff]
  cases term with
  | none => exact ⟨.basic .void none, by simp, .basic .void⟩
  | some v => exact ⟨ref "data", by simp, conforms_data (henv "data" _ rfl) v⟩

theorem conforms_formOf_iff {kind : Kind} :
    Conforms env term (formOf kind) ↔ ∃ members, term = some (.object members) ∧
      Entries.find? "kind" members = some (.string kind.tag) ∧
      ∀ slot ∈ kind.slots, Conforms env (Entries.find? slot.1 members) slot.2.type := by
  rw [formOf, form, conforms_struct_iff]
  refine exists_congr fun members => and_congr_right fun _ => ?_
  simp only [List.forall_mem_cons, List.forall_mem_append, List.forall_mem_map,
    conforms_word_iff, conforms_maybe_data henv, List.not_mem_nil, false_implies, implies_true,
    and_true]

/-- An object is a term when it names a form and has the parts of that form. -/
theorem conforms_term_iff :
    Conforms env term Bootstrap.term ↔ ∃ kind members, term = some (.object members) ∧
      Entries.find? "kind" members = some (.string (Kind.tag kind)) ∧
      ∀ slot ∈ kind.slots, Conforms env (Entries.find? slot.1 members) slot.2.type := by
  have hform : ∀ kind : Kind, Conforms env term (ref kind.binding) ↔
      Conforms env term (formOf kind) :=
    fun kind => conforms_ref_iff (henv _ _ (find?_typeBindings kind))
  rw [Bootstrap.term, ref, conforms_ref_iff (henv _ _ find?_type), conforms_union_iff]
  constructor
  · rintro ⟨alt, hmem, halt⟩
    obtain ⟨kind, -, rfl⟩ := List.mem_map.1 hmem
    exact ⟨kind, (conforms_formOf_iff henv).1 ((hform kind).1 halt)⟩
  · rintro ⟨kind, h⟩
    refine ⟨_, List.mem_map.2 ⟨kind, kind.mem_all, rfl⟩, (hform kind).2 ?_⟩
    exact (conforms_formOf_iff henv).2 h

/-- The object of a term is a term when its parts hold what the form asks for. -/
theorem conforms_of_parts {t : Ty}
    (h : ∀ slot ∈ t.kind.slots, ∃ v, (slot.1, v) ∈ t.partMembers ∧
      Conforms env (some v) slot.2.type) : Conforms env (some t.toValue) Bootstrap.term := by
  rw [conforms_term_iff henv, Ty.toValue_eq_object]
  refine ⟨t.kind, t.members, rfl, t.find?_kind_members, ?_⟩
  intro slot hslot
  obtain ⟨v, hmem, hconforms⟩ := h slot hslot
  rwa [Ty.find?_members hmem]

/-- Every type as data is a term. The induction is on the type, one case for each form;
literals and notes may be any values. -/
theorem conforms_toValue (t : Ty) : Conforms env (some t.toValue) Bootstrap.term := by
  induction t using Ty.induction with
  | basic sub note =>
      apply conforms_of_parts henv
      have hsub : Conforms env (some (.string sub.name)) Slot.sub.type :=
        conforms_sub_iff.2 ⟨sub, rfl⟩
      exact List.forall_mem_singleton.2 ⟨_, List.mem_cons_self, hsub⟩
  | literal value note =>
      apply conforms_of_parts henv
      have hvalue := conforms_data (henv "data" _ rfl) value
      exact List.forall_mem_singleton.2 ⟨_, List.mem_cons_self, hvalue⟩
  | union alts note ih =>
      apply conforms_of_parts henv
      exact List.forall_mem_singleton.2 ⟨_, List.mem_cons_self, conforms_toValues ih⟩
  | struct fields note ih =>
      apply conforms_of_parts henv
      exact List.forall_mem_singleton.2 ⟨_, List.mem_cons_self, conforms_toMembers ih⟩
  | map key value note ihkey ihvalue =>
      apply conforms_of_parts henv
      refine List.forall_mem_cons.2 ⟨⟨_, List.mem_cons_self, ihkey⟩, ?_⟩
      exact List.forall_mem_singleton.2
        ⟨_, List.mem_cons_of_mem _ List.mem_cons_self, ihvalue⟩
  | list item note ih =>
      apply conforms_of_parts henv
      exact List.forall_mem_singleton.2 ⟨_, List.mem_cons_self, ih⟩
  | tuple items note ih =>
      apply conforms_of_parts henv
      exact List.forall_mem_singleton.2 ⟨_, List.mem_cons_self, conforms_toValues ih⟩
  | letIn bindings body note ih ihbody =>
      apply conforms_of_parts henv
      refine List.forall_mem_cons.2 ⟨⟨_, List.mem_cons_self, conforms_toMembers ih⟩, ?_⟩
      exact List.forall_mem_singleton.2
        ⟨_, List.mem_cons_of_mem _ List.mem_cons_self, ihbody⟩
  | ref name note =>
      apply conforms_of_parts henv
      have hname : Conforms env (some (.string name)) Slot.text.type :=
        conforms_string_iff.2 ⟨name, rfl⟩
      exact List.forall_mem_singleton.2 ⟨_, List.mem_cons_self, hname⟩

end Terms

/-- The type of types takes terms, in every environment. -/
theorem conforms_typeType_iff :
    Conforms env term typeType ↔ Conforms (env.extend typeBindings) term Bootstrap.term :=
  conforms_letIn_iff

/-- A document is a schema when it is an object with a term, the known version, the
known encoding and a note. -/
theorem conforms_schemaType_iff :
    Conforms env term schemaType ↔ ∃ members, term = some (.object members) ∧
      Conforms (env.extend typeBindings) (Entries.find? "t" members) Bootstrap.term ∧
      Entries.find? "version" members = some (.string Schema.knownVersion) ∧
      Entries.find? "encoding" members = some (.string Encoding.json.name) ∧
      ∃ note, Entries.find? "meta" members = some note := by
  simp only [schemaType, conforms_struct_iff, List.forall_mem_cons, conforms_typeType_iff,
    conforms_union_iff, List.mem_singleton, exists_eq_left, forall_eq, conforms_word_iff,
    conforms_dataType_iff]

end Bootstrap

end TypedJson
