import TypedJson.Bootstrap
import TypedJson.Proofs.Codec
import TypedJson.Proofs.Type.Parts

/-!
# Schemas read from the members of an object

`Schema.partsOf` takes the four parts of a schema in whatever order the members have, and
passes the others over. The invariant of the run is `Schema.partsBefore`: a part that is
still to come has not been read. So an object without repeated names that has the four
parts reads as the schema of these parts, or is refused for its type alone
(`Schema.ofValue_givesIf`).

A schema document is read from the value of its text when that value passes the check of
the schema of schemas (`Schema.read_of_accepted`), and not otherwise.
-/

set_option autoImplicit false

namespace TypedJson.Schema

/-- The refusal of a document whose type has a union without alternatives. -/
def noAlternative : ReadError :=
  .ofShape [.key "t"] Ty.noAlternative

/-- The parts that have been read while these members are still to come, on the way to
the parts of the whole object. -/
def partsBefore (whole : Parts) (members : List (String × Value)) : Parts where
  t := if "t" ∈ Entries.names members then none else whole.t
  version := if "version" ∈ Entries.names members then none else whole.version
  encoding := if "encoding" ∈ Entries.names members then none else whole.encoding
  note := if "meta" ∈ Entries.names members then none else whole.note

/-- Each member under the name of a part holds that part; only the type can be refused,
and it is when `p` does not hold. -/
structure Holds (whole : Parts) (p : Prop) (members : List (String × Value)) : Prop where
  t : ∀ v, ("t", v) ∈ members →
    ∃ t, whole.t = some t ∧ GivesIf Ty.noAlternative p t (Ty.ofValue v)
  version : ∀ v, ("version", v) ∈ members → ∃ s, whole.version = some s ∧ v = .string s
  encoding : ∀ v, ("encoding", v) ∈ members → ∃ s, whole.encoding = some s ∧ v = .string s
  note : ∀ v, ("meta", v) ∈ members → whole.note = some v.merged

variable {whole : Parts} {p : Prop} {member : String × Value} {rest : List (String × Value)}

theorem Holds.tail (h : Holds whole p (member :: rest)) : Holds whole p rest where
  t v hv := h.t v (List.mem_cons_of_mem _ hv)
  version v hv := h.version v (List.mem_cons_of_mem _ hv)
  encoding v hv := h.encoding v (List.mem_cons_of_mem _ hv)
  note v hv := h.note v (List.mem_cons_of_mem _ hv)

/-- The refusal of a part is seen from the object. -/
theorem givesIf_ofPart {α : Type} {fault : ShapeFault} {a : α} {reading : Except ShapeFault α}
    (step : PathStep) (h : GivesIf fault p a reading) :
    GivesIf (.ofShape [step] fault) p a (ReadError.ofPart step reading) :=
  (h.mapError (ReadError.ofShape [])).mapError fun e => { e with path := step :: e.path }

/-! ## One member -/

section Members

variable {before : Parts} {name : String} {v : Value}

theorem partsOf_t (h : before.t = none) :
    partsOf (("t", v) :: rest) before =
      ReadError.ofPart (.key "t") (Ty.ofValue v) >>= fun t =>
        partsOf rest { before with t := some t } := by
  rw [partsOf, h]
  rfl

theorem partsOf_version (h : before.version = none) {s : String} :
    partsOf (("version", .string s) :: rest) before =
      partsOf rest { before with version := some s } := by
  rw [partsOf, h]
  rfl

theorem partsOf_encoding (h : before.encoding = none) {s : String} :
    partsOf (("encoding", .string s) :: rest) before =
      partsOf rest { before with encoding := some s } := by
  rw [partsOf, h]
  rfl

theorem partsOf_note (h : before.note = none) :
    partsOf (("meta", v) :: rest) before =
      partsOf rest { before with note := some v.merged } := by
  rw [partsOf, h]
  rfl

/-- A member under another name is passed over. -/
theorem partsOf_of_not_part (ht : name ≠ "t") (hversion : name ≠ "version")
    (hencoding : name ≠ "encoding") (hnote : name ≠ "meta") :
    partsOf ((name, v) :: rest) before = partsOf rest before := by
  rw [partsOf] <;> assumption

end Members

/-! ## All members -/

variable {name : String} {v : Value}

/-- A member other than the type is stored or passed over, and never refused. -/
theorem partsOf_step (ht : name ≠ "t") (hnew : name ∉ Entries.names rest)
    (h : Holds whole p ((name, v) :: rest)) :
    partsOf ((name, v) :: rest) (partsBefore whole ((name, v) :: rest)) =
      partsOf rest (partsBefore whole rest) := by
  -- The parts before a member differ from those after it in that one part.
  by_cases hversion : name = "version"
  · subst hversion
    obtain ⟨s, hwhole, rfl⟩ := h.version v List.mem_cons_self
    rw [partsOf_version (by simp [partsBefore])]
    simp [partsBefore, hnew, hwhole]
  by_cases hencoding : name = "encoding"
  · subst hencoding
    obtain ⟨s, hwhole, rfl⟩ := h.encoding v List.mem_cons_self
    rw [partsOf_encoding (by simp [partsBefore])]
    simp [partsBefore, hnew, hwhole]
  by_cases hnote : name = "meta"
  · subst hnote
    rw [partsOf_note (by simp [partsBefore])]
    simp [partsBefore, hnew, h.note v List.mem_cons_self]
  rw [partsOf_of_not_part ht hversion hencoding hnote]
  simp [partsBefore, Ne.symm ht, Ne.symm hversion, Ne.symm hencoding, Ne.symm hnote]

/-- Members without repeated names are read to the end, unless the type is refused. The
induction is on the members that are still to come. -/
theorem partsOf_givesIf {members : List (String × Value)} (hdistinct : Entries.Distinct members)
    (h : Holds whole p members) :
    GivesIf noAlternative ("t" ∈ Entries.names members → p) whole
      (partsOf members (partsBefore whole members)) := by
  induction members with
  | nil => exact .of_ok rfl (by simp [Entries.names])
  | cons member rest ih =>
      obtain ⟨name, v⟩ := member
      obtain ⟨hnew, hrest⟩ := Entries.distinct_cons.1 hdistinct
      replace ih := ih hrest h.tail
      by_cases ht : name = "t"
      · subst ht
        obtain ⟨t, hwhole, hread⟩ := h.t v List.mem_cons_self
        have hnext : partsBefore whole rest =
            { partsBefore whole (("t", v) :: rest) with t := some t } := by
          simp [partsBefore, hnew, hwhole]
        rw [hnext] at ih
        rw [partsOf_t (by simp [partsBefore])]
        have hpart : GivesIf noAlternative p t (ReadError.ofPart (.key "t") (Ty.ofValue v)) :=
          givesIf_ofPart (.key "t") hread
        refine (hpart.bind ih).congr ⟨fun hboth _ => hboth.1, fun hall => ?_⟩
        exact ⟨hall List.mem_cons_self, fun _ => hall List.mem_cons_self⟩
      · rw [partsOf_step ht hnew h]
        refine ih.congr ?_
        simp [Ne.symm ht]

/-- An object with the four parts of a schema is that schema, unless its type is refused.
The parts may come in any order and among other members. -/
theorem ofValue_givesIf {members : List (String × Value)} {v note : Value} {t : Ty}
    {version encoding : String} (hdistinct : Entries.Distinct members)
    (ht : Entries.find? "t" members = some v)
    (hversion : Entries.find? "version" members = some (.string version))
    (hencoding : Entries.find? "encoding" members = some (.string encoding))
    (hnote : Entries.find? "meta" members = some note)
    (hread : GivesIf Ty.noAlternative p t (Ty.ofValue v)) :
    GivesIf noAlternative p ⟨t, version, encoding, note.merged⟩ (ofValue (.object members)) := by
  let whole : Parts := ⟨some t, some version, some encoding, some note.merged⟩
  have hunique : ∀ {name : String} {u w : Value}, Entries.find? name members = some u →
      (name, w) ∈ members → w = u := by
    intro name u w hu hw
    exact Option.some.inj ((Entries.find?_of_mem hdistinct hw).symm.trans hu)
  have hholds : Holds whole p members := by
    refine ⟨?_, ?_, ?_, ?_⟩
    · intro w hw
      rw [hunique ht hw]
      exact ⟨t, rfl, hread⟩
    · exact fun w hw => ⟨version, rfl, hunique hversion hw⟩
    · exact fun w hw => ⟨encoding, rfl, hunique hencoding hw⟩
    · intro w hw
      rw [hunique hnote hw]
  have hstart : partsBefore whole members = {} := by
    simp [partsBefore, Entries.mem_names_of_find? ht, Entries.mem_names_of_find? hversion,
      Entries.mem_names_of_find? hencoding, Entries.mem_names_of_find? hnote]
  have hparts := partsOf_givesIf hdistinct hholds
  rw [hstart] at hparts
  refine (hparts.bind_ok ?_).congr ?_
  · rfl
  · exact ⟨fun h => h (Entries.mem_names_of_find? ht), fun hp _ => hp⟩

/-! ## Documents -/

section Documents

variable {checker : Checker} {text : String}

/-- The text is a value that passes the check of the schema of schemas. -/
def Accepts (checker : Checker) (text : String) (v : Value) : Prop :=
  TypedJson.parse text = .ok v ∧ checker.check (some v) Bootstrap.schemaType = .ok ()

theorem read_of_accepted {v : Value} (h : Accepts checker text v) :
    read checker text = (ofValue v).mapError .shape := by
  have hdecode : (documents checker).decode text = .ok ⟨v⟩ := Codec.decode_eq_ok_iff.2 h
  rw [read, hdecode]
  cases hof : ofValue v <;> simp only [hof] <;> rfl

theorem read_of_not_accepted (h : ∀ v, ¬ Accepts checker text v) :
    ∃ e, read checker text = .error (.decode e) := by
  cases hdecode : (documents checker).decode text with
  | error e => exact ⟨e, by rw [read, hdecode]⟩
  | ok decoded => exact absurd (Codec.decode_eq_ok_iff.1 hdecode) (h decoded.term)

/-- Only an accepted document gets as far as the reader of schemas. -/
theorem read_cases (checker : Checker) (text : String) :
    (∃ e, read checker text = .error (.decode e)) ∨
      ∃ v, Accepts checker text v ∧ read checker text = (ofValue v).mapError .shape := by
  by_cases haccepted : ∃ v, Accepts checker text v
  · obtain ⟨v, hv⟩ := haccepted
    exact .inr ⟨v, hv, read_of_accepted hv⟩
  · exact .inl (read_of_not_accepted (not_exists.1 haccepted))

theorem exists_of_read_eq_shape {e : ReadError} (h : read checker text = .error (.shape e)) :
    ∃ v, Accepts checker text v ∧ ofValue v = .error e := by
  rcases read_cases checker text with ⟨other, hother⟩ | ⟨v, hv, hread⟩
  · cases h.symm.trans hother
  · obtain ⟨other, hof, heq⟩ := mapError_eq_error_iff.1 (hread.symm.trans h)
    cases heq
    exact ⟨v, hv, hof⟩

theorem exists_of_read_eq_ok {s : Schema} (h : read checker text = .ok s) :
    ∃ v, Accepts checker text v ∧ ofValue v = .ok s := by
  rcases read_cases checker text with ⟨e, he⟩ | ⟨v, hv, hread⟩
  · cases h.symm.trans he
  · exact ⟨v, hv, mapError_eq_ok_iff.1 (hread.symm.trans h)⟩

end Documents

end TypedJson.Schema
