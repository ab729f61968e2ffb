import TypedJson.Codec
import TypedJson.Proofs.Failure
import TypedJson.Proofs.Reader.Value
import TypedJson.Proofs.Type.Wire

/-!
# The written form of an error determines the error

A decode error is written as an object, and that object as a compact text. Nothing is lost on
the way. Values with the same text are the same value, however deep they are nested, since a text
is read back with enough room (`Value.compact_inj`). Terms with the same object have the same
form, the same note and the same parts, so that types are compared part by part; a union without
alternatives, which no reader takes, is written like any other (`Ty.toValue_inj`). The same goes
for failures, whose chains hold failures again (`Failure.toValue_inj`).
-/

set_option autoImplicit false

namespace TypedJson

/-- Lists are equal when a function that tells the elements of one of them from all others gives
equal lists. -/
theorem eq_of_map_eq_map {α β : Type} {f : α → β} {as bs : List α}
    (h : ∀ a ∈ as, ∀ b, f a = f b → a = b) (hmap : as.map f = bs.map f) : as = bs := by
  induction as generalizing bs with
  | nil => exact (List.map_eq_nil_iff.1 hmap.symm).symm
  | cons a as ih =>
      cases bs with
      | nil => cases hmap
      | cons b bs =>
          obtain ⟨ha, has⟩ := List.forall_mem_cons.1 h
          obtain ⟨hfirst, hrest⟩ := List.cons.inj hmap
          rw [ha b hfirst, ih has hrest]

/-! ## Texts -/

/-- Values with the same compact text are the same value. The text is read back with room for both
of them, and gives each of them. -/
theorem Value.compact_inj {v w : Value} : v.compact = w.compact ↔ v = w := by
  refine ⟨fun h => ?_, fun h => h ▸ rfl⟩
  have hwritten : v.write [] = w.write [] := String.ofList_injective h
  have hv := (Reader.raw_write v (max v.nesting w.nesting) Reader.endsNumber_nil).ok
    (Nat.le_max_left _ _)
  have hw := (Reader.raw_write w (max v.nesting w.nesting) Reader.endsNumber_nil).ok
    (Nat.le_max_right _ _)
  rw [hwritten, hw] at hv
  exact (Prod.ext_iff.1 (Except.ok.inj hv)).1.symm

/-! ## Types -/

theorem Basic.name_inj {a b : Basic} (h : a.name = b.name) : a = b := by
  cases a <;> cases b <;> first | rfl | exact absurd h (by decide)

namespace Ty

/-- Terms are written alike when they have the same form, the same parts and the same note. -/
theorem toValue_eq_iff {t u : Ty} :
    t.toValue = u.toValue ↔ t.kind = u.kind ∧ t.partMembers = u.partMembers ∧ t.note = u.note := by
  constructor
  · intro h
    rw [toValue_eq_object, toValue_eq_object] at h
    have hmembers : t.members = u.members := Value.object.inj h
    have hnote : t.note = u.note := by
      rw [← find?_meta_members t, hmembers, find?_meta_members]
    obtain ⟨hkind, hrest⟩ := List.cons.inj hmembers
    refine ⟨Kind.tag_inj (Value.string.inj (Prod.ext_iff.1 hkind).2), ?_, hnote⟩
    rw [noteMember, noteMember, hnote] at hrest
    exact List.append_cancel_right hrest
  · rintro ⟨hkind, hparts, hnote⟩
    rw [toValue_eq_object, toValue_eq_object, members, members, noteMember, noteMember, hkind,
      hparts, hnote]

theorem eq_of_toValues {ts us : List Ty}
    (h : ∀ t ∈ ts, ∀ u : Ty, t.toValue = u.toValue → t = u) (hvalues : toValues ts = toValues us) :
    ts = us := by
  rw [toValues_eq_map, toValues_eq_map] at hvalues
  exact eq_of_map_eq_map h hvalues

theorem eq_of_toMembers {named others : List (String × Ty)}
    (h : ∀ entry ∈ named, ∀ u : Ty, entry.2.toValue = u.toValue → entry.2 = u)
    (hmembers : toMembers named = toMembers others) : named = others := by
  rw [toMembers_eq_map, toMembers_eq_map] at hmembers
  refine eq_of_map_eq_map (fun entry hentry other hother => ?_) hmembers
  obtain ⟨hname, hvalue⟩ := Prod.ext_iff.1 hother
  exact Prod.ext hname (h entry hentry other.2 hvalue)

/-- Types that are written alike are the same type. -/
theorem toValue_inj {t u : Ty} : t.toValue = u.toValue ↔ t = u := by
  refine ⟨fun h => ?_, fun h => h ▸ rfl⟩
  -- The form and the note are those of `t` in every case, so only the parts are compared.
  induction t using Ty.induction generalizing u with
  | basic sub note =>
      obtain ⟨hkind, hparts, rfl⟩ := toValue_eq_iff.1 h
      cases u with
      | basic sub' note' =>
          have hname : sub.name = sub'.name := by simpa [partMembers] using hparts
          rw [Basic.name_inj hname]
          rfl
      | _ => cases hkind
  | literal value note =>
      obtain ⟨hkind, hparts, rfl⟩ := toValue_eq_iff.1 h
      cases u with
      | literal value' note' =>
          have hvalue : value = value' := by simpa [partMembers] using hparts
          rw [hvalue]
          rfl
      | _ => cases hkind
  | union alts note ih =>
      obtain ⟨hkind, hparts, rfl⟩ := toValue_eq_iff.1 h
      cases u with
      | union alts' note' =>
          have halts : toValues alts = toValues alts' := by simpa [partMembers] using hparts
          rw [eq_of_toValues (fun t ht u => ih t ht) halts]
          rfl
      | _ => cases hkind
  | struct fields note ih =>
      obtain ⟨hkind, hparts, rfl⟩ := toValue_eq_iff.1 h
      cases u with
      | struct fields' note' =>
          have hfields : toMembers fields = toMembers fields' := by
            simpa [partMembers] using hparts
          rw [eq_of_toMembers (fun field hfield u => ih field hfield) hfields]
          rfl
      | _ => cases hkind
  | map key value note ihkey ihvalue =>
      obtain ⟨hkind, hparts, rfl⟩ := toValue_eq_iff.1 h
      cases u with
      | map key' value' note' =>
          have hboth : key.toValue = key'.toValue ∧ value.toValue = value'.toValue := by
            simpa [partMembers] using hparts
          rw [ihkey hboth.1, ihvalue hboth.2]
          rfl
      | _ => cases hkind
  | list item note ih =>
      obtain ⟨hkind, hparts, rfl⟩ := toValue_eq_iff.1 h
      cases u with
      | list item' note' =>
          have hitem : item.toValue = item'.toValue := by simpa [partMembers] using hparts
          rw [ih hitem]
          rfl
      | _ => cases hkind
  | tuple items note ih =>
      obtain ⟨hkind, hparts, rfl⟩ := toValue_eq_iff.1 h
      cases u with
      | tuple items' note' =>
          have hitems : toValues items = toValues items' := by simpa [partMembers] using hparts
          rw [eq_of_toValues (fun t ht u => ih t ht) hitems]
          rfl
      | _ => cases hkind
  | letIn bindings body note ihbindings ihbody =>
      obtain ⟨hkind, hparts, rfl⟩ := toValue_eq_iff.1 h
      cases u with
      | letIn bindings' body' note' =>
          have hboth : toMembers bindings = toMembers bindings' ∧
              body.toValue = body'.toValue := by simpa [partMembers] using hparts
          rw [eq_of_toMembers (fun binding hbinding u => ihbindings binding hbinding) hboth.1,
            ihbody hboth.2]
          rfl
      | _ => cases hkind
  | ref name note =>
      obtain ⟨hkind, hparts, rfl⟩ := toValue_eq_iff.1 h
      cases u with
      | ref name' note' =>
          have hname : name = name' := by simpa [partMembers] using hparts
          rw [hname]
          rfl
      | _ => cases hkind

end Ty

/-! ## Failures -/

namespace Failure

theorem chainValues_eq_map (chain : List Failure) : chainValues chain = chain.map toValue := by
  induction chain with
  | nil => rfl
  | cons failure rest ih => rw [chainValues, ih, List.map_cons]

/-- What comes first in the object of a failure. -/
def label : Failure → String
  | .mismatch .. => "cannot coerce term into type"
  | .literalMismatch .. => "literal mismatch"
  | .unionExhausted .. => "union exhausted"
  | .unknownRef .. => "unknown ref"
  | .recursionLimit _ => "recursion limit exceeded"

/-- What follows the label. A missing value has no member, which tells it from null. -/
def details : Failure → List (String × Value)
  | .mismatch ty term | .literalMismatch ty term => subject ty term
  | .unionExhausted ty term chain => subject ty term ++ [("chain", .array (chainValues chain))]
  | .unknownRef name bindings =>
      [("ref_name", .string name), ("bindings", .object (Ty.toMembers bindings))]
  | .recursionLimit limit => [("limit", .number (.ofUInt64 limit))]

theorem toValue_eq_object (failure : Failure) :
    failure.toValue = .object (("error", .string failure.label) :: failure.details) := by
  cases failure <;> rfl

theorem toValue_eq_iff {a b : Failure} :
    a.toValue = b.toValue ↔ a.label = b.label ∧ a.details = b.details := by
  simp [toValue_eq_object]

/-- Refused values with their types are written alike, whatever follows them, only when they are
the same; what follows is no value under the name `term`. -/
theorem subject_append_inj {t u : Ty} {v w : Option Value} {after after' : List (String × Value)}
    (hafter : "term" ∉ Entries.names after) (hafter' : "term" ∉ Entries.names after')
    (h : subject t v ++ after = subject u w ++ after') : t = u ∧ v = w ∧ after = after' := by
  obtain ⟨htype, hrest⟩ := List.cons.inj h
  have hty : t = u := Ty.toValue_inj.1 (Prod.ext_iff.1 htype).2
  -- A value on one side only would be found under `term` in what follows on the other.
  cases v with
  | none =>
      cases w with
      | none => exact ⟨hty, rfl, hrest⟩
      | some w =>
          have hrest : after = ("term", w) :: after' := hrest
          exact absurd (by simp [hrest, Entries.names]) hafter
  | some v =>
      cases w with
      | none =>
          have hrest : ("term", v) :: after = after' := hrest
          exact absurd (by simp [← hrest, Entries.names]) hafter'
      | some w =>
          obtain ⟨hterm, hrest⟩ := List.cons.inj hrest
          exact ⟨hty, congrArg some (Prod.ext_iff.1 hterm).2, hrest⟩

theorem subject_inj {t u : Ty} {v w : Option Value} (h : subject t v = subject u w) :
    t = u ∧ v = w := by
  have happend : subject t v ++ [] = subject u w ++ [] := by rw [h]
  obtain ⟨hty, hterm, -⟩ := subject_append_inj (by simp [Entries.names]) (by simp [Entries.names])
    happend
  exact ⟨hty, hterm⟩

/-- Failures that are written alike are the same failure. The labels tell the five kinds
apart, and the induction goes through the chains of unions. -/
theorem toValue_inj {a b : Failure} : a.toValue = b.toValue ↔ a = b := by
  refine ⟨fun h => ?_, fun h => h ▸ rfl⟩
  induction a using Failure.induction generalizing b with
  | step a ih =>
      obtain ⟨hlabel, hdetails⟩ := toValue_eq_iff.1 h
      cases a with
      | mismatch ty term =>
          cases b with
          | mismatch ty' term' =>
              obtain ⟨rfl, rfl⟩ := subject_inj hdetails
              rfl
          | _ => simp [label] at hlabel
      | literalMismatch ty term =>
          cases b with
          | literalMismatch ty' term' =>
              obtain ⟨rfl, rfl⟩ := subject_inj hdetails
              rfl
          | _ => simp [label] at hlabel
      | unionExhausted ty term chain =>
          cases b with
          | unionExhausted ty' term' chain' =>
              obtain ⟨rfl, rfl, hchain⟩ := subject_append_inj (by simp [Entries.names])
                (by simp [Entries.names]) hdetails
              have hvalues : chain.map toValue = chain'.map toValue := by
                simpa [chainValues_eq_map] using hchain
              have hbelow : ∀ below ∈ chain, ∀ other : Failure, below.toValue = other.toValue →
                  below = other := fun below hmem other => ih below hmem
              rw [eq_of_map_eq_map hbelow hvalues]
          | _ => simp [label] at hlabel
      | unknownRef name bindings =>
          cases b with
          | unknownRef name' bindings' =>
              obtain ⟨rfl, hbindings⟩ : name = name' ∧
                  Ty.toMembers bindings = Ty.toMembers bindings' := by
                simpa [details] using hdetails
              rw [Ty.eq_of_toMembers (fun _ _ _ => Ty.toValue_inj.1) hbindings]
          | _ => simp [label] at hlabel
      | recursionLimit limit =>
          cases b with
          | recursionLimit limit' =>
              have hlimit : (limit.toNat : Int) = limit'.toNat := by
                simpa [details, Number.ofUInt64] using hdetails
              rw [UInt64.toNat_inj.1 (Int.ofNat.inj hlimit)]
          | _ => simp [label] at hlabel

end Failure

/-! ## Decode errors -/

/-- No failure is labelled like a malformed text. -/
theorem Failure.toValue_ne_malformed (failure : Failure) (data reason : String) :
    failure.toValue ≠ (DecodeError.malformed data reason).toValue := by
  rw [toValue_eq_object, DecodeError.toValue]
  intro h
  have hlabel : failure.label = "invalid JSON" :=
    Value.string.inj (Prod.ext_iff.1 (List.cons.inj (Value.object.inj h)).1).2
  cases failure <;> simp [label] at hlabel

/-- The text of a decode error loses nothing. Two decode errors have the same text only when they
are the same: malformed texts with their reasons, and failures with their kinds, their types down to
the order of fields and the notes, their values, missing or not, their chains, the names that were
unknown with the bindings in force, and their limits. -/
theorem DecodeError.compact_toValue_inj (a b : DecodeError) :
    a.toValue.compact = b.toValue.compact ↔ a = b := by
  rw [Value.compact_inj]
  refine ⟨fun h => ?_, fun h => h ▸ rfl⟩
  cases a with
  | malformed data reason =>
      cases b with
      | malformed data' reason' =>
          obtain ⟨rfl, rfl⟩ : data = data' ∧ reason = reason' := by simpa [toValue] using h
          rfl
      | type failure => exact absurd h.symm (failure.toValue_ne_malformed data reason)
  | type failure =>
      cases b with
      | malformed data reason => exact absurd h (failure.toValue_ne_malformed data reason)
      | type failure' => rw [Failure.toValue_inj.1 h]

end TypedJson
