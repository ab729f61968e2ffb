import TypedJson.Proofs.Entries
import TypedJson.Proofs.Outcome
import TypedJson.Type.Wire

/-!
# Terms read from the parts of an object

`Kind.slots` lists the parts that each form of term has, and what each part holds.
Reading an object passes over all members but the form, the note and these parts
(`partsOf_filter`). So an object without repeated names reads as the term of its form
with the parts found under their names, whatever their order and whatever else the
object holds: one lemma for each form, from `ofValue_basic` to `ofValue_ref`. The one
refusal among them is that of a union without alternatives.
-/

set_option autoImplicit false

namespace TypedJson

/-- What a part of a term holds: the name of a basic kind, any value, a text, a term,
terms in an array, or named terms in an object. -/
inductive Slot where
  | sub
  | data
  | text
  | term
  | terms
  | named
  deriving DecidableEq

/-- The parts of a form: their names, and what they hold. -/
def Kind.slots : Kind → List (String × Slot)
  | .basic => [("sub", .sub)]
  | .literal => [("value", .data)]
  | .union => [("alts", .terms)]
  | .struct => [("fields", .named)]
  | .map => [("key", .term), ("value", .term)]
  | .list => [("value", .term)]
  | .tuple => [("fields", .terms)]
  | .letIn => [("bindings", .named), ("t", .term)]
  | .ref => [("name", .text)]

/-- The form has a part of that name. -/
def Kind.hasPart (kind : Kind) (name : String) : Bool :=
  kind.slots.any fun slot => name == slot.1

namespace Kind

theorem find?_tag (kind : Kind) : all.find? (fun other => other.tag == kind.tag) = some kind := by
  cases kind <;> decide

theorem tag_inj {kind other : Kind} (h : kind.tag = other.tag) : kind = other := by
  have hfound := find?_tag kind
  rw [h, find?_tag other] at hfound
  exact (Option.some.inj hfound).symm

theorem ofMembers_filter (seen : Option Kind) (members : List (String × Value)) :
    ofMembers seen members =
      ofMembers seen (members.filter fun member => member.1 == "kind") := by
  induction members generalizing seen with
  | nil => rfl
  | cons member rest ih =>
      obtain ⟨name, v⟩ := member
      by_cases hname : name = "kind"
      · subst hname
        simp only [List.filter_cons, beq_self_eq_true, if_true, ofMembers]
        cases seen with
        | some kind => rfl
        | none => simp only [← ih]
      · simp only [List.filter_cons, beq_iff_eq, hname, if_false, ofMembers]
        exact ih seen

end Kind

namespace Ty

/-- The refusal of a union without alternatives. -/
def noAlternative : ShapeFault :=
  .invalidLength 0 "at least one alternative"

/-! ## Members that are looked at -/

/-- A member is read before the others, which matter by their own reading only. -/
theorem partsOf_cons_congr {kind : Kind} {rest rest' : List (String × Value)}
    (h : partsOf kind rest = partsOf kind rest') (member : String × Value) (parts : Parts) :
    partsOf kind (member :: rest) parts = partsOf kind (member :: rest') parts := by
  unfold partsOf
  rw [h]

theorem partsOf_of_not_part {kind : Kind} {name : String} (h : kind.hasPart name = false)
    (v : Value) (rest : List (String × Value)) (parts : Parts) :
    partsOf kind ((name, v) :: rest) parts = partsOf kind rest parts := by
  rw [partsOf]
  -- Each form and part that has a case of its own is left to be ruled out.
  all_goals
    rintro rfl rfl
    cases h

/-- Members that are no parts of the form are passed over. -/
theorem partsOf_filter (kind : Kind) (members : List (String × Value)) :
    partsOf kind members =
      partsOf kind (members.filter fun member => kind.hasPart member.1) := by
  induction members with
  | nil => rfl
  | cons member rest ih =>
      funext parts
      cases hpart : kind.hasPart member.1 with
      | true =>
          rw [List.filter_cons, if_pos hpart]
          exact partsOf_cons_congr ih member parts
      | false =>
          rw [List.filter_cons, if_neg (by simp [hpart]), ← ih]
          exact partsOf_of_not_part hpart member.2 rest parts

/-- The object has distinct names, names a form, and has a note or none. -/
structure Headed (kind : Kind) (members : List (String × Value)) (note : Option Value) :
    Prop where
  distinct : Entries.Distinct members
  kind : Entries.find? "kind" members = some (.string kind.tag)
  note : (Entries.find? "meta" members).map Value.merged = note

namespace Headed

variable {kind : Kind} {members : List (String × Value)} {note : Option Value}

theorem noteOf_eq (h : Headed kind members note) : noteOf members = .ok note := by
  rw [noteOf, Entries.filter_name h.distinct, ← h.note]
  cases Entries.find? "meta" members <;> rfl

theorem ofMembers_eq (h : Headed kind members note) : Kind.ofMembers none members = .ok kind := by
  rw [Kind.ofMembers_filter, Entries.filter_name h.distinct, h.kind]
  simp only [Option.map_some, Option.toList_some, Kind.ofMembers, Kind.ofValue, if_true,
    Kind.find?_tag]
  rfl

theorem ofValue_eq (h : Headed kind members note) :
    ofValue (.object members) =
      partsOf kind (members.filter fun member => kind.hasPart member.1) {} >>= fun parts =>
        build kind parts note := by
  rw [← partsOf_filter, ofValue, h.noteOf_eq, h.ofMembers_eq]
  rfl

/-- A form with one part reads that part alone. -/
theorem ofValue_one (h : Headed kind members note) {name : String} {v : Value}
    (hslots : ∀ other, kind.hasPart other = (other == name))
    (hv : Entries.find? name members = some v) :
    ofValue (.object members) =
      partsOf kind [(name, v)] {} >>= fun parts => build kind parts note := by
  simp only [h.ofValue_eq, hslots, Entries.filter_name h.distinct, hv]
  rfl

/-- A form with one part is refused when the part is. `put` is where the part goes. -/
theorem givesIf_one (h : Headed kind members note) {name : String} {v : Value} {α : Type}
    {a : α} {reading : Except ShapeFault α} {p : Prop} {t : Ty} (put : α → Parts)
    (hslots : ∀ other, kind.hasPart other = (other == name))
    (hv : Entries.find? name members = some v)
    (hput : partsOf kind [(name, v)] {} = reading >>= fun a => .ok (put a))
    (hbuild : build kind (put a) note = .ok t) (ha : GivesIf noAlternative p a reading) :
    GivesIf noAlternative p t (ofValue (.object members)) := by
  rw [h.ofValue_one hslots hv, hput]
  have hparts : GivesIf noAlternative p (put a) (reading >>= fun a => .ok (put a)) :=
    ha.bind_ok rfl
  exact hparts.bind_ok hbuild

/-- A form with two parts is refused when one of them is. The object may have them in
either order; the term and the refusal are the same. -/
theorem givesIf_two (h : Headed kind members note) {first second : String} {v w : Value}
    {α β : Type} {a : α} {b : β} {reading : Except ShapeFault α} {reading' : Except ShapeFault β}
    {p q : Prop} {t : Ty} (put : α → β → Parts)
    (hslots : ∀ other, kind.hasPart other = (other == first || other == second))
    (hne : first ≠ second) (hv : Entries.find? first members = some v)
    (hw : Entries.find? second members = some w)
    (hput : partsOf kind [(first, v), (second, w)] {} =
      reading >>= fun a => reading' >>= fun b => .ok (put a b))
    (hput' : partsOf kind [(second, w), (first, v)] {} =
      reading' >>= fun b => reading >>= fun a => .ok (put a b))
    (hbuild : build kind (put a b) note = .ok t)
    (ha : GivesIf noAlternative p a reading) (hb : GivesIf noAlternative q b reading') :
    GivesIf noAlternative (p ∧ q) t (ofValue (.object members)) := by
  simp only [h.ofValue_eq, hslots]
  rcases Entries.filter_two_names h.distinct hne hv hw with hfilter | hfilter
  · rw [hfilter, hput]
    have hparts : GivesIf noAlternative (p ∧ q) (put a b)
        (reading >>= fun a => reading' >>= fun b => .ok (put a b)) := ha.bind (hb.bind_ok rfl)
    exact hparts.bind_ok hbuild
  · rw [hfilter, hput']
    have hparts : GivesIf noAlternative (q ∧ p) (put a b)
        (reading' >>= fun b => reading >>= fun a => .ok (put a b)) := hb.bind (ha.bind_ok rfl)
    exact (hparts.congr and_comm).bind_ok hbuild

end Headed

/-! ## Many terms -/

section Many

variable {α : Type} {as : List α} {value : α → Value} {term : α → Ty} {fits : α → Prop}

/-- Terms one after the other are read when each of them is. -/
theorem ofItems_givesIf
    (h : ∀ a ∈ as, GivesIf noAlternative (fits a) (term a) (ofValue (value a))) :
    GivesIf noAlternative (∀ a ∈ as, fits a) (as.map term) (ofItems (as.map value)) := by
  induction as with
  | nil => exact .of_ok rfl (by simp)
  | cons a rest ih =>
      obtain ⟨ha, hrest⟩ := List.forall_mem_cons.1 h
      have hboth : GivesIf noAlternative (fits a ∧ ∀ b ∈ rest, fits b) (term a :: rest.map term)
          (ofItems (value a :: rest.map value)) := ha.bind ((ih hrest).bind_ok rfl)
      exact hboth.congr List.forall_mem_cons.symm

theorem ofMembers_givesIf (name : α → String)
    (h : ∀ a ∈ as, GivesIf noAlternative (fits a) (term a) (ofValue (value a))) :
    GivesIf noAlternative (∀ a ∈ as, fits a) (as.map fun a => (name a, term a))
      (ofMembers (as.map fun a => (name a, value a))) := by
  induction as with
  | nil => exact .of_ok rfl (by simp)
  | cons a rest ih =>
      obtain ⟨ha, hrest⟩ := List.forall_mem_cons.1 h
      have hboth : GivesIf noAlternative (fits a ∧ ∀ b ∈ rest, fits b)
          ((name a, term a) :: rest.map fun a => (name a, term a))
          (ofMembers ((name a, value a) :: rest.map fun a => (name a, value a))) :=
        ha.bind ((ih hrest).bind_ok rfl)
      exact hboth.congr List.forall_mem_cons.symm

/-- Named terms keep their order, since no name is repeated. -/
theorem bindingsOf_givesIf (name : α → String)
    (hdistinct : Entries.Distinct (as.map fun a => (name a, term a)))
    (h : ∀ a ∈ as, GivesIf noAlternative (fits a) (term a) (ofValue (value a))) :
    GivesIf noAlternative (∀ a ∈ as, fits a) (as.map fun a => (name a, term a))
      (bindingsOf (.object (as.map fun a => (name a, value a)))) := by
  refine (ofMembers_givesIf name h).bind_ok ?_
  rw [Entries.ofList_of_distinct hdistinct]

end Many

/-! ## The forms -/

section Forms

variable {members : List (String × Value)} {note : Option Value} {v w : Value} {p q : Prop}

theorem ofValue_basic (h : Headed .basic members note) {sub : Basic}
    (hsub : Entries.find? "sub" members = some (.string sub.name)) :
    ofValue (.object members) = .ok (.basic sub note) := by
  rw [h.ofValue_one (by simp [Kind.hasPart, Kind.slots]) hsub]
  cases sub <;> rfl

theorem ofValue_literal (h : Headed .literal members note)
    (hv : Entries.find? "value" members = some v) :
    ofValue (.object members) = .ok (.literal v.merged note) := by
  rw [h.ofValue_one (by simp [Kind.hasPart, Kind.slots]) hv]
  rfl

theorem ofValue_ref (h : Headed .ref members note) {name : String}
    (hname : Entries.find? "name" members = some (.string name)) :
    ofValue (.object members) = .ok (.ref name note) := by
  rw [h.ofValue_one (by simp [Kind.hasPart, Kind.slots]) hname]
  rfl

theorem ofValue_list (h : Headed .list members note) {item : Ty}
    (hv : Entries.find? "value" members = some v)
    (hitem : GivesIf noAlternative p item (ofValue v)) :
    GivesIf noAlternative p (.list item note) (ofValue (.object members)) :=
  h.givesIf_one (fun item => { item := some item }) (by simp [Kind.hasPart, Kind.slots]) hv
    rfl rfl hitem

theorem ofValue_tuple (h : Headed .tuple members note) {items : List Ty}
    (hv : Entries.find? "fields" members = some v)
    (hitems : GivesIf noAlternative p items (listOf v)) :
    GivesIf noAlternative p (.tuple items note) (ofValue (.object members)) :=
  h.givesIf_one (fun items => { items := some items }) (by simp [Kind.hasPart, Kind.slots]) hv
    rfl rfl hitems

theorem ofValue_struct (h : Headed .struct members note) {fields : Bindings}
    (hv : Entries.find? "fields" members = some v)
    (hfields : GivesIf noAlternative p fields (bindingsOf v)) :
    GivesIf noAlternative p (.struct fields note) (ofValue (.object members)) :=
  h.givesIf_one (fun fields => { fields := some fields }) (by simp [Kind.hasPart, Kind.slots]) hv
    rfl rfl hfields

/-- A union is the one form that refuses what its parts allow. -/
theorem ofValue_union (h : Headed .union members note) {alts : List Ty}
    (hv : Entries.find? "alts" members = some v)
    (halts : GivesIf noAlternative p alts (listOf v)) :
    GivesIf noAlternative (p ∧ alts ≠ []) (.union alts note) (ofValue (.object members)) := by
  rw [h.ofValue_one (by simp [Kind.hasPart, Kind.slots]) hv]
  have hnonempty : GivesIf noAlternative (alts ≠ []) { alts := some alts }
      (if alts.isEmpty then .error noAlternative
        else partsOf .union [] { alts := some alts }) := by
    refine ⟨fun hne => ?_, fun hempty => ?_⟩
    · rw [if_neg (by simpa using hne)]
      rfl
    · rw [if_pos (by simpa using hempty)]
  exact (halts.bind hnonempty).bind_ok rfl

theorem ofValue_map (h : Headed .map members note) {key value : Ty}
    (hv : Entries.find? "key" members = some v) (hw : Entries.find? "value" members = some w)
    (hkey : GivesIf noAlternative p key (ofValue v))
    (hvalue : GivesIf noAlternative q value (ofValue w)) :
    GivesIf noAlternative (p ∧ q) (.map key value note) (ofValue (.object members)) :=
  h.givesIf_two (fun key value => { key := some key, item := some value })
    (by simp [Kind.hasPart, Kind.slots]) (by decide) hv hw rfl rfl rfl hkey hvalue

theorem ofValue_letIn (h : Headed .letIn members note) {bindings : Bindings} {body : Ty}
    (hv : Entries.find? "bindings" members = some v) (hw : Entries.find? "t" members = some w)
    (hbindings : GivesIf noAlternative p bindings (bindingsOf v))
    (hbody : GivesIf noAlternative q body (ofValue w)) :
    GivesIf noAlternative (p ∧ q) (.letIn bindings body note) (ofValue (.object members)) :=
  h.givesIf_two (fun bindings body => { bindings := some bindings, body := some body })
    (by simp [Kind.hasPart, Kind.slots]) (by decide) hv hw rfl rfl rfl hbindings hbody

end Forms

end Ty

end TypedJson
