import TypedJson.Proofs.Reader.Skip
import TypedJson.Proofs.Schema
import TypedJson.Reader.Schema

/-!
# Reading from a text and from its value

A type or a schema can be read from the front of a text, part by part, or from the value of that
text. Where `raw` reads a value, the two ways agree (`term_agrees`, `schema_agrees`): both give the
same and leave the same rest, or both are refused, though for reasons that may differ. Nothing is
asked of the value here, for a repeated key is refused both ways.

A parsed text gives each key of an object one member. So the readings of the text and of its parsed
value agree when no object of the text repeats a key (`front_iff_ofValue`).
-/

set_option autoImplicit false

namespace TypedJson.Reader

variable {α β ε : Type}

/-! ## Agreement -/

/-- A reading from a text up to `rest` and the outcome for its value: both give the same, or both
are refused. -/
inductive Agrees (rest : List Char) : Except Fault (Taken α) → Except ε α → Prop where
  | ok (a : α) : Agrees rest (.ok (a, rest)) (.ok a)
  | refused (fault : Fault) (e : ε) : Agrees rest (.error fault) (.error e)

namespace Agrees

variable {s rest : List Char} {reading : Except Fault (Taken α)} {outcome : Except ε α}

theorem bind {f : Taken α → Except Fault (Taken β)} {g : α → Except ε β}
    (h : Agrees s reading outcome) (hnext : ∀ a, Agrees rest (f (a, s)) (g a)) :
    Agrees rest (reading >>= f) (outcome >>= g) := by
  cases h with
  | ok a => exact hnext a
  | refused fault e => exact .refused fault e

theorem below (step : PathStep) (h : Agrees rest reading outcome) :
    Agrees rest (below step reading) outcome := by
  cases h with
  | ok a => exact .ok a
  | refused fault e => exact .refused _ e

theorem mapError {δ : Type} (g : ε → δ) (h : Agrees rest reading outcome) :
    Agrees rest reading (outcome.mapError g) := by
  cases h with
  | ok a => exact .ok a
  | refused fault e => exact .refused fault (g e)

theorem ofPart {outcome : Except ShapeFault α} (step : PathStep) (h : Agrees rest reading outcome) :
    Agrees rest reading (ReadError.ofPart step outcome) :=
  (h.mapError _).mapError _

theorem eq_ok {a : α} (h : Agrees rest reading (.ok a : Except ε α)) : reading = .ok (a, rest) := by
  cases h
  rfl

theorem exists_fault {e : ε} (h : Agrees rest reading (.error e)) :
    ∃ fault, reading = .error fault := by
  cases h
  exact ⟨_, rfl⟩

theorem eq_ok_iff (h : Agrees rest reading outcome) (a : α) :
    (∃ after, reading = .ok (a, after)) ↔ outcome = .ok a := by
  cases h with
  | ok b => simp
  | refused fault e => simp

end Agrees

/-! ## Members -/

/-- What is gathered from the members of an object, member by member, agrees with what is gathered
from their values when each step does. -/
theorem members_agrees {σ : Type} {value : List Char → Except Fault (Taken α)}
    {step : σ → String → List Char → Except Fault (Taken σ)}
    {stepOf : σ → String × α → Except ε σ}
    (hstep : ∀ gathered key a {t u w}, colon t = .ok u → value u = .ok (a, w) →
      Agrees w (step gathered key t) (stepOf gathered (key, a)))
    {first : Bool} {s rest : List Char} {ms : List (String × α)}
    (h : MembersRead value first s ms rest) {fuel : Nat} (hfuel : ms.length < fuel) (gathered : σ) :
    Agrees rest (members step fuel first gathered s) (ms.foldlM stepOf gathered) := by
  induction h generalizing fuel gathered with
  | close hnext =>
      obtain ⟨fuel, rfl⟩ := Nat.exists_eq_succ_of_ne_zero (Nat.ne_of_gt hfuel)
      rw [members, hnext]
      exact .ok gathered
  | part hnext hcolon hvalue _ ih =>
      obtain ⟨fuel, rfl⟩ := Nat.exists_eq_succ_of_ne_zero (Nat.ne_zero_of_lt hfuel)
      rw [members, hnext, List.foldlM_cons]
      exact (hstep gathered _ _ hcolon hvalue).bind fun next =>
        ih (Nat.lt_of_succ_lt_succ hfuel) next

variable {room : Nat} {s t rest : List Char} {v : Value}

theorem memberValue_agrees {reading : List Char → Except Fault (Taken α)} {outcome : Except ε α}
    {u : List Char} (key : String) (hcolon : colon s = .ok u)
    (h : Agrees rest (reading u) outcome) : Agrees rest (memberValue reading key s) outcome := by
  rw [memberValue, hcolon]
  exact h.below (.key key)

/-! ## Kinds of values by their first character -/

theorem RawRead.string_of_quote (h : RawRead room s v rest) (hgap : skipGap s = '"' :: t) :
    ∃ text, v = .string text := by
  cases h <;> simp_all [isDigit]

theorem RawRead.array_of_bracket (h : RawRead room s v rest) (hgap : skipGap s = '[' :: t) :
    ∃ vs, v = .array vs := by
  cases h <;> simp_all [isDigit]

theorem RawRead.object_of_brace (h : RawRead room s v rest) (hgap : skipGap s = '\x7b' :: t) :
    ∃ ms, v = .object ms := by
  cases h <;> simp_all [isDigit]

/-- A text is read where the value is a text, and refused elsewhere. -/
theorem text_agrees (h : raw room s = .ok (v, rest)) : Agrees rest (text s) (Ty.textOf v) := by
  have hread := rawRead_of_raw h
  by_cases htext : ∃ text, v = .string text
  · obtain ⟨text, rfl⟩ := htext
    cases hread with
    | string hgap hquoted =>
        rw [Reader.text, hgap]
        change Agrees rest (quoted _) _
        rw [hquoted]
        exact .ok text
  · obtain ⟨e, he⟩ : ∃ e, Ty.textOf v = .error e := by
      cases v with
      | string text => exact absurd ⟨text, rfl⟩ htext
      | _ => exact ⟨_, rfl⟩
    rw [he, Reader.text.eq_def]
    split
    · exact .refused _ e
    next hgap => exact absurd (hread.string_of_quote hgap) htext
    · exact .refused _ e

/-- An object is read where the value is an object, and refused elsewhere. -/
theorem object_agrees {expected : String}
    {inside : Nat → List Char → Except Fault (Taken α)} {outcome : Except ε α}
    (h : raw room s = .ok (v, rest))
    (hinside : ∀ {room t ms}, v = .object ms → ms.length < t.length + 1 →
      MembersRead (raw room) true t ms rest → Agrees rest (inside room t) outcome)
    (hother : (∀ ms, v ≠ .object ms) → ∃ e, outcome = .error e) :
    Agrees rest (object expected room inside s) outcome := by
  have hread := rawRead_of_raw h
  by_cases hobject : ∃ ms, v = .object ms
  · obtain ⟨ms, rfl⟩ := hobject
    cases hread with
    | object hgap hlength hmembers =>
        rw [object, hgap]
        exact hinside rfl hlength hmembers
  · obtain ⟨e, rfl⟩ := hother fun ms hms => hobject ⟨ms, hms⟩
    rw [object.eq_def]
    split
    · exact .refused _ e
    next hgap => exact absurd (hread.object_of_brace hgap) hobject
    · exact .refused _ e

/-! ## Types -/

/-- What one member adds to the members of a type's object, or the refusal of a second note. -/
def addMember (gathered : TermMembers) (member : String × Value) : Except ShapeFault TermMembers :=
  if member.1 = "meta" && gathered.noted then .error (.duplicateField "meta")
  else .ok ⟨gathered.noted || member.1 = "meta", member :: gathered.members⟩

theorem termMember_agrees (gathered : TermMembers) (key : String) {u w : List Char}
    (hcolon : colon t = .ok u) (h : raw room u = .ok (v, w)) :
    Agrees w (termMember room gathered key t) (addMember gathered (key, v)) := by
  rw [termMember, addMember]
  split
  · exact .refused _ _
  · have hvalue : Agrees w (memberValue (raw room) key t) (.ok v : Except ShapeFault Value) :=
      memberValue_agrees key hcolon (h ▸ .ok v)
    rw [hvalue.eq_ok]
    exact .ok _

/-- All members are gathered, or there is a second note among them and those before. -/
theorem addMember_all (ms : List (String × Value)) (gathered : TermMembers) :
    (∃ noted, ms.foldlM addMember gathered = .ok ⟨noted, ms.reverse ++ gathered.members⟩) ∨
      (∃ e, ms.foldlM addMember gathered = .error e) ∧
        1 < (ms.filter (·.1 == "meta")).length + gathered.noted.toNat := by
  induction ms generalizing gathered with
  | nil => exact .inl ⟨gathered.noted, rfl⟩
  | cons m ms ih =>
      rw [List.foldlM_cons, addMember]
      split
      next htwice =>
        obtain ⟨hmeta, hnoted⟩ := Bool.and_eq_true_iff.1 htwice
        refine .inr ⟨⟨_, rfl⟩, ?_⟩
        simp_all
      next hfirst =>
        obtain ⟨noted, hall⟩ | ⟨hrefused, htwice⟩ :=
          ih ⟨gathered.noted || m.1 = "meta", m :: gathered.members⟩
        · rw [List.reverse_cons, List.append_assoc]
          exact .inl ⟨noted, hall⟩
        · refine .inr ⟨hrefused, ?_⟩
          -- A note is counted as gathered from here on, and as a member up to here.
          by_cases hmeta : m.1 = "meta" <;> simp_all

theorem exists_of_two_notes {ms : List (String × Value)}
    (h : 1 < (ms.filter (·.1 == "meta")).length) : ∃ e, Ty.ofValue (.object ms) = .error e := by
  have hnote : Ty.noteOf ms = .error (.duplicateField "meta") := by
    unfold Ty.noteOf
    split <;> simp_all
  rw [Ty.ofValue, hnote]
  exact ⟨_, rfl⟩

/-- A type is read alike from a text and from its value. -/
theorem term_agrees (h : raw room s = .ok (v, rest)) :
    Agrees rest (term room s) (Ty.ofValue v) := by
  refine object_agrees h ?_ ?_
  · rintro room t ms rfl hlength hmembers
    have hall := members_agrees (fun gathered key v => termMember_agrees gathered key) hmembers
      hlength {}
    obtain ⟨noted, hgathered⟩ | ⟨⟨e, hrefused⟩, htwice⟩ := addMember_all ms {}
    · rw [hgathered, List.append_nil] at hall
      rw [hall.eq_ok]
      simp only [bind, Except.bind, List.reverse_reverse]
      cases Ty.ofValue (.object ms) with
      | ok ty => exact .ok ty
      | error fault => exact .refused _ fault
    · rw [hrefused] at hall
      obtain ⟨fault, hfault⟩ := hall.exists_fault
      obtain ⟨e, he⟩ := exists_of_two_notes htwice
      rw [hfault, he]
      exact .refused fault e
  · intro hother
    cases v with
    | object ms => exact absurd rfl (hother ms)
    | _ => exact ⟨_, rfl⟩

/-! ## Schemas -/

theorem value_agrees (h : raw room s = .ok (v, rest)) :
    Agrees rest (value room s) (.ok v.merged : Except ε Value) := by
  rw [value, h]
  exact .ok v.merged

theorem skip_agrees (h : raw room s = .ok (v, rest)) :
    Agrees rest (skip s) (.ok () : Except ε Unit) := by
  rw [skip_of_raw h]
  exact .ok ()

theorem onceMember_agrees {σ : Type} {reading : List Char → Except Fault (Taken α)}
    {outcome : Except ShapeFault α} {u : List Char} (seen : Option α) (put : α → σ) (key : String)
    (hcolon : colon s = .ok u) (h : Agrees rest (reading u) outcome) :
    Agrees rest (onceMember seen reading put key s)
      (ReadError.atTop (Ty.once key seen) >>= fun _ =>
        ReadError.ofPart (.key key) outcome >>= fun a => .ok (put a)) := by
  cases seen with
  | some a => exact .refused _ _
  | none => exact ((memberValue_agrees key hcolon h).ofPart (.key key)).bind fun a => .ok (put a)

theorem partsOf_cons (m : String × Value) (ms : List (String × Value)) (parts : Schema.Parts) :
    Schema.partsOf (m :: ms) parts = Schema.partsOf [m] parts >>= Schema.partsOf ms := by
  obtain ⟨name, v⟩ := m
  rw [Schema.partsOf.eq_def, Schema.partsOf.eq_def]
  dsimp only
  split <;> simp only [Schema.partsOf, bind_assoc] <;> rfl

theorem schemaMember_agrees (parts : Schema.Parts) (key : String) {u w : List Char}
    (hcolon : colon t = .ok u) (h : raw room u = .ok (v, w)) :
    Agrees w (schemaMember room parts key t) (Schema.partsOf [(key, v)] parts) := by
  rw [schemaMember.eq_def]
  split
  · rw [Schema.partsOf]
    exact onceMember_agrees parts.t _ _ hcolon (term_agrees h)
  · rw [Schema.partsOf]
    exact onceMember_agrees parts.version _ _ hcolon (text_agrees h)
  · rw [Schema.partsOf]
    exact onceMember_agrees parts.encoding _ _ hcolon (text_agrees h)
  · rw [Schema.partsOf]
    exact onceMember_agrees parts.note _ _ hcolon (value_agrees h)
  next ht hversion hencoding hnote =>
    rw [Schema.partsOf_of_not_part ht hversion hencoding hnote]
    have hpassed : Agrees w (memberValue skip key t) (.ok () : Except ReadError Unit) :=
      memberValue_agrees key hcolon (skip_agrees h)
    rw [hpassed.eq_ok]
    exact .ok parts

theorem partsOf_eq_foldlM (ms : List (String × Value)) (parts : Schema.Parts) :
    Schema.partsOf ms parts = ms.foldlM (fun parts m => Schema.partsOf [m] parts) parts := by
  induction ms generalizing parts with
  | nil => rfl
  | cons m ms ih =>
      rw [partsOf_cons, List.foldlM_cons]
      exact congrArg _ (funext ih)

/-- One position of an array: it is missing and refused, or its part is read alike. -/
theorem position_cases {reading : List Char → Except Fault (Taken α)}
    {outcome : Value → Except ShapeFault α} {vs : List Value}
    (hreading : ∀ {t v u}, raw room t = .ok (v, u) → Agrees u (reading t) (outcome v))
    (i : Nat) (h : ItemsRead (raw room) (i == 0) s vs rest) :
    (vs = [] ∧ ∃ fault, position Schema.expectedParts reading i s = .error fault) ∨
      ∃ v more u, vs = v :: more ∧ ItemsRead (raw room) false u more rest ∧
        Agrees u (position Schema.expectedParts reading i s)
          (ReadError.ofPart (.index i) (outcome v)) := by
  cases h with
  | close hclose =>
      rw [position, hclose]
      exact .inl ⟨rfl, _, rfl⟩
  | part hfound hread hmore =>
      rw [position, hfound]
      exact .inr ⟨_, _, _, rfl, hmore, ((hreading hread).below (.index i)).ofPart (.index i)⟩

theorem endOfArray_of_close (h : nextItem false s = .ok (.close rest)) :
    endOfArray s = .ok rest := by
  obtain ⟨_, hgap, ⟨⟩⟩ | ⟨_, _, _, _, _, ⟨⟩⟩ | ⟨_, _, _, ⟨⟩⟩ := nextItem_cases h
  rw [endOfArray, hgap]
  rfl

theorem endOfArray_of_part (h : nextItem false s = .ok (.part t)) :
    ∃ fault, endOfArray s = .error fault := by
  obtain ⟨_, _, ⟨⟩⟩ | ⟨⟨⟩, _⟩ | ⟨_, _, hgap, ⟨⟩⟩ := nextItem_cases h
  simp only [endOfArray, hgap]
  split <;> exact ⟨_, rfl⟩

/-- Nothing may follow the last position. -/
theorem endOfArray_agrees {vs : List Value} (h : ItemsRead (raw room) false s vs rest) (a : α)
    (e : ε) :
    Agrees rest (endOfArray s >>= fun after => .ok (a, after))
      (if vs.isEmpty then .ok a else .error e) := by
  cases h with
  | close hnext =>
      rw [endOfArray_of_close hnext]
      exact .ok a
  | part hnext _ _ =>
      obtain ⟨fault, hfault⟩ := endOfArray_of_part hnext
      rw [hfault]
      exact .refused fault e

/-- An array is read position by position, down to its end or the first part that is missing. -/
theorem schema_array_agrees {vs : List Value} (hgap : skipGap s = '[' :: t)
    (h : ItemsRead (raw room) true t vs rest) :
    Agrees rest (schema (room + 1) s) (Schema.ofItems vs) := by
  unfold schema
  rw [hgap]
  obtain ⟨rfl, fault, hfault⟩ | ⟨_, _, _, rfl, h, hpart⟩ := position_cases term_agrees 0 h
  · simp only [hfault]
    exact .refused _ _
  refine hpart.bind fun ty => ?_
  obtain ⟨rfl, fault, hfault⟩ | ⟨_, _, _, rfl, h, hpart⟩ := position_cases text_agrees 1 h
  · simp only [hfault]
    exact .refused _ _
  refine hpart.bind fun version => ?_
  obtain ⟨rfl, fault, hfault⟩ | ⟨_, _, _, rfl, h, hpart⟩ := position_cases text_agrees 2 h
  · simp only [hfault]
    exact .refused _ _
  refine hpart.bind fun encoding => ?_
  obtain ⟨rfl, fault, hfault⟩ | ⟨note, _, _, rfl, h, hpart⟩ := position_cases value_agrees 3 h
  · simp only [hfault]
    exact .refused _ _
  simp only [hpart.eq_ok]
  exact endOfArray_agrees h _ _

/-- A schema is read alike from a text and from its value. -/
theorem schema_agrees (h : raw room s = .ok (v, rest)) :
    Agrees rest (schema room s) (Schema.ofValue v) := by
  have hread := rawRead_of_raw h
  -- An array holds the parts by position; all else is read, or refused, as an object.
  by_cases harray : ∃ vs, v = .array vs
  · obtain ⟨vs, rfl⟩ := harray
    cases hread with
    | array hgap hitems => exact schema_array_agrees hgap hitems
  unfold schema
  split
  next hgap => exact absurd (hread.array_of_bracket hgap) harray
  next hgap => exact absurd (hread.array_of_bracket hgap) harray
  next =>
    refine object_agrees h ?_ ?_
    · rintro room t ms rfl hlength hmembers
      rw [Schema.ofValue, partsOf_eq_foldlM]
      refine (members_agrees (fun parts key v => schemaMember_agrees parts key) hmembers
        hlength {}).bind fun parts => ?_
      dsimp only
      cases Schema.build parts with
      | ok schema => exact .ok schema
      | error fault => exact .refused _ _
    · intro hother
      cases v with
      | array vs => exact absurd ⟨vs, rfl⟩ harray
      | object ms => exact absurd rfl (hother ms)
      | _ => exact ⟨_, rfl⟩

/-! ## Whole texts -/

/-- No object of the text repeats a key. -/
def KeysOnce (text : String) : Prop :=
  ∀ v rest, raw maxOpen text.toList = .ok (v, rest) → v.Distinct

/-- A parsed text without repeated keys has the value that stands in it. -/
theorem exists_raw_of_parse {text : String} {d : Value} (h : parse text = .ok d)
    (hkeys : KeysOnce text) : ∃ rest, raw maxOpen text.toList = .ok (d, rest) := by
  obtain ⟨rest, hvalue⟩ := exists_of_whole h
  obtain ⟨⟨v, rest'⟩, hraw, hmerged⟩ := exists_of_bind_eq_ok hvalue
  cases hmerged
  exact ⟨rest, by rw [Value.merged_of_distinct (hkeys v rest hraw), hraw]⟩

/-- The compact text of a value repeats a key only where the value does. -/
theorem keysOnce_compact {d : Value} (h : d.Readable) : KeysOnce d.compact := by
  intro v rest hraw
  have hwritten : raw maxOpen d.compact.toList = .ok (d, []) := by
    rw [Value.compact, String.toList_ofList]
    exact (raw_write d maxOpen endsNumber_nil).ok h.2
  rw [hwritten] at hraw
  cases hraw
  exact h.1

theorem front_eq_ok_iff {reader : List Char → Except Fault (Taken α)} {text : String} {a : α} :
    front reader text = .ok a ↔ ∃ after, reader text.toList = .ok (a, after) := by
  cases hread : reader text.toList with
  | error fault => simp [front, hread, bind, Except.bind, Except.mapError]
  | ok taken =>
      obtain ⟨b, after⟩ := taken
      simp [front, hread, bind, Except.bind, Except.mapError]

theorem atTop_eq_ok_iff {outcome : Except ShapeFault α} {a : α} :
    ReadError.atTop outcome = .ok a ↔ outcome = .ok a := by
  cases outcome <;> simp [ReadError.atTop, Except.mapError]

/-- Reading from a text and from its parsed value agree, for types and for schemas, on every text
that parses and in which no object repeats a key. -/
theorem front_iff_ofValue {text : String} {d : Value} (h : parse text = .ok d)
    (hkeys : KeysOnce text) :
    (∀ t, front (term maxOpen) text = .ok t ↔ ReadError.atTop (Ty.ofValue d) = .ok t) ∧
      ∀ schema, front (Reader.schema maxOpen) text = .ok schema ↔
        Schema.ofValue d = .ok schema := by
  obtain ⟨rest, hraw⟩ := exists_raw_of_parse h hkeys
  constructor
  · intro t
    rw [front_eq_ok_iff, atTop_eq_ok_iff]
    exact (term_agrees hraw).eq_ok_iff t
  · intro schema
    rw [front_eq_ok_iff]
    exact (schema_agrees hraw).eq_ok_iff schema

/-- A schema whose members stand in another order, with one that is passed over and a type whose
form is named by its number. The same text is no type. -/
theorem front_iff_ofValue_reordered :
    let item : Value := .object [("sub", .string "int"), ("kind", .string "type-basic")]
    let d : Value := .object
      [("x", .array [.bool true, .object []]), ("meta", .null), ("encoding", .string "json"),
        ("t", .object [("value", item), ("kind", .number (.int 5 (by decide)))]),
        ("version", .string "0")]
    parse d.compact = .ok d ∧ KeysOnce d.compact ∧
      front (schema maxOpen) d.compact = .ok ⟨.list (.basic .int none) none, "0", "json", .null⟩ ∧
      ∀ t, front (term maxOpen) d.compact ≠ .ok t := by
  intro item d
  have hreadable : d.Readable := ⟨by decide +kernel +zetaReduce, by decide +kernel +zetaReduce⟩
  have hparse := parse_compact hreadable
  have hkeys := keysOnce_compact hreadable
  obtain ⟨hterm, hschema⟩ := front_iff_ofValue hparse hkeys
  refine ⟨hparse, hkeys, (hschema _).2 (by decide +kernel +zetaReduce), fun t ht => ?_⟩
  have hkind : Ty.ofValue d = .error (.missingField "kind") := by decide +kernel +zetaReduce
  rw [hterm, hkind] at ht
  cases ht

end TypedJson.Reader
