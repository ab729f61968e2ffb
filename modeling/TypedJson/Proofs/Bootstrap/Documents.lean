import TypedJson.Proofs.Bootstrap.Guard
import TypedJson.Proofs.Schema

/-!
# Schema documents written and read back

The text of a schema passes the check of the schema of schemas when its version and its
encoding are known and its nesting is one that texts may have (`accepts_text_iff`): the
type in it is a term whatever it is (`conforms_toValue`), and the default checker goes
deep enough for every document that can be parsed. What is left to the reader of schemas
is to refuse unions without alternatives. So a schema is read back from its text exactly
when it is free of these four faults, and no text is read as another schema.
-/

set_option autoImplicit false

namespace TypedJson.Schema

open Check Bootstrap

/-- Neither the type nor the note repeats a name. -/
def Distinct (s : Schema) : Prop :=
  s.t.Distinct ∧ s.note.Distinct

variable {s : Schema}

theorem distinct_toValue (h : s.Distinct) : s.toValue.Distinct := by
  rw [toValue, Value.Distinct, Value.distinctMembers_iff]
  refine ⟨by simp [Entries.Distinct, Entries.names], ?_⟩
  simp only [List.forall_mem_cons, List.not_mem_nil, false_implies, implies_true, and_true]
  exact ⟨Ty.distinct_toValue s.t h.1, trivial, trivial, h.2⟩

/-- Once a schema is written, only its unions decide whether it is read. -/
theorem ofValue_toValue (h : s.Distinct) :
    GivesIf noAlternative s.t.UnionsNonempty s (ofValue s.toValue) := by
  have hread := ofValue_givesIf (distinct_toValue h).1 rfl rfl rfl rfl (Ty.ofValue_toValue s.t h.1)
  rwa [Value.merged_of_distinct h.2] at hread

theorem conforms_toValue_iff {env : Env} :
    Conforms env (some s.toValue) schemaType ↔
      s.version = knownVersion ∧ s.encoding = Encoding.json.name := by
  rw [conforms_schemaType_iff]
  constructor
  · rintro ⟨members, heq, -, hversion, hencoding, -⟩
    cases heq
    exact ⟨by simpa [Entries.find?] using hversion, by simpa [Entries.find?] using hencoding⟩
  · rintro ⟨hversion, hencoding⟩
    refine ⟨_, rfl, conforms_toValue (resolves_extend env _) s.t, ?_, ?_, _, rfl⟩
    · simp [Entries.find?, hversion]
    · simp [Entries.find?, hencoding]

/-- A document that texts may have passes the check exactly when its version and its
encoding are known. -/
theorem accepts_text_iff (h : s.Distinct) {v : Value} :
    Accepts {} s.text v ↔ v = s.toValue ∧ s.version = knownVersion ∧
      s.encoding = Encoding.json.name ∧ s.toValue.nesting ≤ 127 := by
  constructor
  · rintro ⟨hparse, hcheck⟩
    have hnesting : s.toValue.nesting ≤ 127 := by
      by_contra hdeep
      obtain ⟨e, he, -⟩ := parse_compact_deep (Nat.lt_of_not_le hdeep)
      cases hparse.symm.trans he
    have hv := (parse_compact ⟨distinct_toValue h, hnesting⟩).symm.trans hparse
    cases hv
    obtain ⟨hversion, hencoding⟩ :=
      conforms_toValue_iff.1 (Checker.conforms_of_checkGiven hcheck)
    exact ⟨rfl, hversion, hencoding, hnesting⟩
  · rintro ⟨rfl, hversion, hencoding, hnesting⟩
    refine ⟨parse_compact ⟨distinct_toValue h, hnesting⟩, ?_⟩
    -- The document settles in 511 levels, and the default checker has 513.
    have hsettles := (settlesIn_document hnesting).mono (show 511 ≤ 513 by decide)
    exact Checker.checkGiven_of_conforms (fun _ => by decide) hsettles
      (conforms_toValue_iff.2 ⟨hversion, hencoding⟩)

/-! ## The round trip -/

/-- A schema that passes the check is read back or refused for an empty union. -/
theorem read_text_of_accepted (h : s.Distinct) {v : Value} (haccepted : Accepts {} s.text v) :
    GivesIf (SchemaError.shape noAlternative) s.t.UnionsNonempty s (read {} s.text) := by
  obtain ⟨rfl, -⟩ := (accepts_text_iff h).1 haccepted
  rw [read_of_accepted haccepted]
  exact (ofValue_toValue h).mapError SchemaError.shape

theorem read_text_eq_ok_iff (h : s.Distinct) :
    read {} s.text = .ok s ↔ s.version = "0" ∧ s.encoding = "json" ∧ s.t.UnionsNonempty ∧
      s.toValue.nesting ≤ 127 := by
  constructor
  · intro hread
    by_cases haccepted : ∃ v, Accepts {} s.text v
    · obtain ⟨v, hv⟩ := haccepted
      obtain ⟨-, hversion, hencoding, hnesting⟩ := (accepts_text_iff h).1 hv
      obtain ⟨hunions, -⟩ := (read_text_of_accepted h hv).of_eq_ok hread
      exact ⟨hversion, hencoding, hunions, hnesting⟩
    · obtain ⟨e, he⟩ := read_of_not_accepted (not_exists.1 haccepted)
      rw [he] at hread
      cases hread
  · rintro ⟨hversion, hencoding, hunions, hnesting⟩
    have haccepted := (accepts_text_iff h).2 ⟨rfl, hversion, hencoding, hnesting⟩
    exact (read_text_of_accepted h haccepted).ok hunions

/-- A text is never read as another schema than the one it was written from. -/
theorem read_text_refused (h : s.Distinct) (hread : read {} s.text ≠ .ok s) :
    ∃ e, read {} s.text = .error e := by
  by_cases haccepted : ∃ v, Accepts {} s.text v
  · obtain ⟨v, hv⟩ := haccepted
    have hgives := read_text_of_accepted h hv
    exact ⟨_, hgives.refused fun hunions => hread (hgives.ok hunions)⟩
  · obtain ⟨e, he⟩ := read_of_not_accepted (not_exists.1 haccepted)
    exact ⟨_, he⟩

/-- The nesting of a document is one more than that of its type and its note. -/
theorem nesting_toValue_le {n : Nat} (ht : s.t.toValue.nesting ≤ n) (hnote : s.note.nesting ≤ n) :
    s.toValue.nesting ≤ n + 1 := by
  apply Value.nesting_object_le_iff.2
  simp only [List.forall_mem_cons, List.not_mem_nil, false_implies, implies_true, and_true]
  exact ⟨ht, Nat.zero_le n, Nat.zero_le n, hnote⟩

/-- A schema is read back from its text exactly when its version and its encoding are known,
its unions have alternatives, and at most 127 arrays and objects are open at one time. In
every other case its text is refused. The schema of schemas is such a schema, with every
note that leaves room for the document around it. -/
theorem read_text_roundTrip :
    (∀ s : Schema, s.Distinct →
      (read {} s.text = .ok s ↔ s.version = "0" ∧ s.encoding = "json" ∧
        s.t.UnionsNonempty ∧ s.toValue.nesting ≤ 127) ∧
      (read {} s.text ≠ .ok s → ∃ e, read {} s.text = .error e)) ∧
    ∀ note : Value, note.Distinct → note.nesting ≤ 126 →
      read {} (schemaSchema note).text = .ok (schemaSchema note) := by
  constructor
  · intro s h
    exact ⟨read_text_eq_ok_iff h, read_text_refused h⟩
  · intro note hdistinct hnesting
    have ht : schemaType.Distinct := by decide +kernel
    have hunions : schemaType.UnionsNonempty := by decide +kernel
    have hschema : schemaType.toValue.nesting ≤ 126 := by decide +kernel
    refine (read_text_eq_ok_iff ⟨ht, hdistinct⟩).2 ⟨rfl, rfl, hunions, ?_⟩
    exact nesting_toValue_le hschema hnesting

/-- A type under 125 lists fills the document to the limit, and one list more is one too
many. An empty union is refused even where the rest is in order. -/
theorem read_text_roundTrip_lists :
    let lists (n : Nat) : Schema :=
      .json (Nat.repeat (fun t => .list t none) n (.basic .void none)) (.object [("a", .null)])
    let empty : Schema := .json (.union [] none) .null
    ((lists 125).Distinct ∧ read {} (lists 125).text = .ok (lists 125)) ∧
    ((lists 126).Distinct ∧ ∃ e, read {} (lists 126).text = .error e) ∧
    (empty.Distinct ∧ ∃ e, read {} empty.text = .error e) ∧
    read {} (schemaSchema .null).text = .ok (schemaSchema .null) := by
  intro lists empty
  have hfull : (lists 125).Distinct := by constructor <;> decide +kernel +zetaReduce
  have hover : (lists 126).Distinct := by constructor <;> decide +kernel +zetaReduce
  have hempty : empty.Distinct := by constructor <;> decide +kernel +zetaReduce
  refine ⟨⟨hfull, ?_⟩, ⟨hover, ?_⟩, ⟨hempty, ?_⟩, ?_⟩
  · refine (read_text_roundTrip.1 _ hfull).1.2 ⟨rfl, rfl, ?_, ?_⟩ <;> decide +kernel +zetaReduce
  · refine (read_text_roundTrip.1 _ hover).2 fun hread => ?_
    obtain ⟨-, -, -, hnesting⟩ := (read_text_roundTrip.1 _ hover).1.1 hread
    exact absurd hnesting (by decide +kernel +zetaReduce)
  · refine (read_text_roundTrip.1 _ hempty).2 fun hread => ?_
    obtain ⟨-, -, hunions, -⟩ := (read_text_roundTrip.1 _ hempty).1.1 hread
    exact absurd hunions (by decide +kernel +zetaReduce)
  · exact read_text_roundTrip.2 .null trivial (Nat.zero_le _)

end TypedJson.Schema
