import TypedJson.Proofs.Outcome
import TypedJson.Proofs.Reader.Number
import TypedJson.Proofs.Reader.Quoted
import TypedJson.Proofs.Value
import TypedJson.Reader.Container

/-!
# Arrays and objects read back

What a container reads as depends on what its parts read as. `ReadsIf fits a rest r`
says that the reading `r` gives `a` and leaves `rest` when `fits` holds, and that it
is refused as nested too deep when not. The readings of the parts compose to the
reading of the container, which fits when all its parts do: `items_part` and
`members_part` are the steps, `items_writeItems` and `members_writeMembers` the runs.
-/

set_option autoImplicit false

namespace TypedJson.Reader

variable {α β : Type}

/-! ## Readings that may be refused as nested too deep -/

/-- The reading gives `a` and leaves `rest` when it fits; otherwise it is refused as
nested too deep. -/
structure ReadsIf (fits : Prop) (a : α) (rest : List Char) (reading : Except Fault (Taken α)) :
    Prop where
  ok : fits → reading = .ok (a, rest)
  deep : ¬ fits → ∃ fault, reading = .error fault ∧ fault.cause = .text .nestedTooDeep

namespace ReadsIf

variable {p q : Prop} {a : α} {b : β} {s s' : List Char} {reading : Except Fault (Taken α)}

theorem of_ok (h : reading = .ok (a, s)) (hp : p) : ReadsIf p a s reading :=
  ⟨fun _ => h, fun hnot => absurd hp hnot⟩

theorem congr (h : ReadsIf p a s reading) (hiff : p ↔ q) : ReadsIf q a s reading :=
  ⟨fun hq => h.ok (hiff.2 hq), fun hq => h.deep fun hp => hq (hiff.1 hp)⟩

/-- The path to a fault does not change its cause. -/
theorem below (step : PathStep) (h : ReadsIf p a s reading) :
    ReadsIf p a s (below step reading) := by
  refine ⟨fun hp => ?_, fun hp => ?_⟩
  · rw [h.ok hp]
    rfl
  · obtain ⟨fault, hfault, hcause⟩ := h.deep hp
    refine ⟨fault.below step, ?_, hcause⟩
    rw [hfault]
    rfl

/-- One reading after the other fits when both do. -/
theorem bind {f : Taken α → Except Fault (Taken β)} (h : ReadsIf p a s reading)
    (hf : ReadsIf q b s' (f (a, s))) : ReadsIf (p ∧ q) b s' (reading >>= f) := by
  by_cases hp : p
  · rw [h.ok hp]
    exact hf.congr ⟨fun hq => ⟨hp, hq⟩, fun hpq => hpq.2⟩
  · refine ⟨fun hpq => absurd hpq.1 hp, fun _ => ?_⟩
    obtain ⟨fault, hfault, hcause⟩ := h.deep hp
    exact ⟨fault, by rw [hfault]; rfl, hcause⟩

theorem map (g : α → β) (h : ReadsIf p a s reading) :
    ReadsIf p (g a) s (reading >>= fun taken => .ok (g taken.1, taken.2)) := by
  have hlast : ReadsIf True (g a) s (.ok (g a, s)) := of_ok rfl trivial
  exact (h.bind hlast).congr (and_iff_left trivial)

end ReadsIf

theorem eq_ok_of_below {step : PathStep} {reading : Except Fault α} {a : α}
    (h : below step reading = .ok a) : reading = .ok a := by
  cases reading with
  | error fault => cases h
  | ok a => exact h

/-! ## The items of an array -/

/-- The text starts with a token that is no closing bracket. -/
def StartsItem (s : List Char) : Prop :=
  ∃ c t, s = c :: t ∧ isGap c = false ∧ c ≠ ']'

theorem skipGap_cons {c : Char} (t : List Char) (hc : isGap c = false) :
    skipGap (c :: t) = c :: t := by
  simp [skipGap, hc]

theorem nextItem_first {s : List Char} (hs : StartsItem s) : nextItem true s = .ok (.part s) := by
  obtain ⟨c, t, rfl, hgap, hclose⟩ := hs
  simp [nextItem, skipGap_cons t hgap]

theorem nextItem_comma {s : List Char} (hs : StartsItem s) :
    nextItem false (',' :: s) = .ok (.part s) := by
  obtain ⟨c, t, rfl, hgap, hclose⟩ := hs
  have hcomma : skipGap (',' :: c :: t) = ',' :: c :: t := rfl
  unfold nextItem
  rw [hcomma]
  split
  case h_1 h => cases h
  case h_2 h => exact absurd (List.cons.inj h).1 (by decide)
  case h_3 h =>
    cases h
    rw [if_neg Bool.false_ne_true, if_pos rfl, skipGap_cons t hgap]
    split
    case h_1 h => cases h
    case h_2 h => exact absurd (List.cons.inj h).1 hclose
    case h_3 => rfl

theorem isGap_of_isDigit {c : Char} (hc : isDigit c = true) : isGap c = false := by
  have hspace : c ≠ ' ' := ne_of_isDigit hc rfl
  have htab : c ≠ '\t' := ne_of_isDigit hc rfl
  have hfeed : c ≠ '\n' := ne_of_isDigit hc rfl
  have hreturn : c ≠ '\r' := ne_of_isDigit hc rfl
  simp [isGap, hspace, htab, hfeed, hreturn]

/-- The text of a number starts with its sign or with a digit. -/
theorem startsItem_text (n : Number) (after : List Char) : StartsItem (n.text ++ after) := by
  obtain ⟨c, t, htext, hc⟩ := magnitudeText_eq_cons n
  rw [Number.text_eq, htext]
  cases n.negative with
  | true => exact ⟨'-', c :: t ++ after, rfl, rfl, by decide⟩
  | false => exact ⟨c, t ++ after, rfl, isGap_of_isDigit hc, ne_of_isDigit hc rfl⟩

/-- The text of a value starts with a token, and with no closing bracket. -/
theorem startsItem_write (v : Value) (after : List Char) : StartsItem (v.write after) := by
  cases v with
  | null => exact ⟨_, _, rfl, rfl, by decide⟩
  | bool b => cases b <;> exact ⟨_, _, rfl, rfl, by decide⟩
  | number n => exact startsItem_text n after
  | string s => exact ⟨_, _, rfl, rfl, by decide⟩
  | array items => cases items <;> exact ⟨_, _, rfl, rfl, by decide⟩
  | object members => cases members <;> exact ⟨_, _, rfl, rfl, by decide⟩

theorem endsNumber_writeItems (vs : List Value) (after : List Char) :
    EndsNumber (Value.writeItems vs after) := by
  cases vs with
  | nil => exact endsNumber_cons after (by decide)
  | cons v vs => exact endsNumber_cons _ (by decide)

section Items

variable {item : List Char → Except Fault (Taken α)} {fuel i : Nat} {s t rest : List Char}

/-- One more item in front of those that follow. -/
theorem items_part {p q : Prop} {a : α} {more : List α} {after : List Char}
    (hnext : nextItem (i == 0) s = .ok (.part t)) (hitem : ReadsIf p a rest (item t))
    (hmore : ReadsIf q more after (items item fuel (i + 1) rest)) :
    ReadsIf (p ∧ q) (a :: more) after (items item (fuel + 1) i s) := by
  have hread : items item (fuel + 1) i s = (below (.index i) (item t) >>= fun taken =>
      items item fuel (i + 1) taken.2 >>= fun more => .ok (taken.1 :: more.1, more.2)) := by
    rw [items, hnext]
    rfl
  rw [hread]
  exact (hitem.below _).bind (hmore.map fun more => a :: more)

/-- What holds of every item that can be read holds of all that are read. -/
theorem forall_mem_of_items {P : α → Prop} (hitem : ∀ t a rest, item t = .ok (a, rest) → P a)
    {all : List α} (h : items item fuel i s = .ok (all, rest)) : ∀ a ∈ all, P a := by
  induction fuel generalizing i s all with
  | zero => cases h
  | succ fuel ih =>
      obtain ⟨next, -, h⟩ := exists_of_bind_eq_ok h
      cases next with
      | close after =>
          cases h
          simp
      | part t =>
          obtain ⟨⟨a, t'⟩, hfirst, h⟩ := exists_of_bind_eq_ok h
          obtain ⟨⟨more, after⟩, hmore, h⟩ := exists_of_bind_eq_ok h
          cases h
          exact List.forall_mem_cons.2 ⟨hitem t a t' (eq_ok_of_below hfirst), ih hmore⟩

variable {fits : Value → Prop} {read : List Char → Except Fault (Taken Value)}
  {v : Value} {vs : List Value} {after : List Char}

/-- The items after the first one. -/
theorem items_writeItems
    (hitem : ∀ v ∈ vs, ∀ after, EndsNumber after → ReadsIf (fits v) v after (read (v.write after)))
    (hfuel : vs.length < fuel) :
    ReadsIf (∀ v ∈ vs, fits v) vs after (items read fuel (i + 1) (Value.writeItems vs after)) := by
  induction vs generalizing fuel i with
  | nil =>
      obtain ⟨fuel, rfl⟩ : ∃ k, fuel = k + 1 := ⟨fuel - 1, by simp at hfuel; omega⟩
      exact .of_ok rfl (by simp)
  | cons v vs ih =>
      obtain ⟨fuel, rfl⟩ : ∃ k, fuel = k + 1 := ⟨fuel - 1, by omega⟩
      obtain ⟨hfirst, hrest⟩ := List.forall_mem_cons.1 hitem
      have hnext : nextItem (i + 1 == 0) (Value.writeItems (v :: vs) after) =
          .ok (.part (v.write (Value.writeItems vs after))) :=
        nextItem_comma (startsItem_write v _)
      exact (items_part hnext (hfirst _ (endsNumber_writeItems vs after))
        (ih hrest (Nat.lt_of_succ_lt_succ hfuel))).congr List.forall_mem_cons.symm

/-- All items of an array that has one. -/
theorem items_write (fits : Value → Prop)
    (hitem : ∀ u ∈ v :: vs, ∀ after, EndsNumber after →
      ReadsIf (fits u) u after (read (u.write after))) :
    ReadsIf (∀ u ∈ v :: vs, fits u) (v :: vs) after
      (items read ((v.write (Value.writeItems vs after)).length + 1) 0
        (v.write (Value.writeItems vs after))) := by
  obtain ⟨hfirst, hrest⟩ := List.forall_mem_cons.1 hitem
  have hfuel : vs.length < (v.write (Value.writeItems vs after)).length := by
    have hwritten := v.length_le_write (Value.writeItems vs after)
    have hitems : vs.length + after.length < (Value.writeItems vs after).length :=
      Value.length_lt_writeItems (fun v _ => v.length_le_write) after
    omega
  have hnext : nextItem (0 == 0) (v.write (Value.writeItems vs after)) =
      .ok (.part (v.write (Value.writeItems vs after))) :=
    nextItem_first (startsItem_write v _)
  exact (items_part hnext (hfirst _ (endsNumber_writeItems vs after))
    (items_writeItems hrest hfuel)).congr List.forall_mem_cons.symm

end Items

/-! ## The members of an object -/

/-- What `named` does with a key: its value goes in front of what was gathered. -/
def gather (value : List Char → Except Fault (Taken α)) (gathered : List (String × α))
    (key : String) (s : List Char) : Except Fault (Taken (List (String × α))) :=
  memberValue value key s >>= fun taken => .ok ((key, taken.1) :: gathered, taken.2)

theorem named_eq (value : List Char → Except Fault (Taken α)) (s : List Char) :
    named value s = members (gather value) (s.length + 1) true [] s >>= fun taken =>
      .ok (taken.1.reverse, taken.2) := rfl

theorem nextKey_first (name : String) (t : List Char) :
    nextKey true (Value.writeString name t) = .ok (.part (name, t)) := by
  have hread : nextKey true (Value.writeString name t) = below .unknown
      (quoted (Value.writeChars name.toList t) >>= fun key => .ok (.part key)) := rfl
  rw [hread, quoted_writeChars]
  rfl

theorem nextKey_comma (name : String) (t : List Char) :
    nextKey false (',' :: Value.writeString name t) = .ok (.part (name, t)) := by
  have hread : nextKey false (',' :: Value.writeString name t) = below .unknown
      (quoted (Value.writeChars name.toList t) >>= fun key => .ok (.part key)) := rfl
  rw [hread, quoted_writeChars]
  rfl

section Members

variable {value : List Char → Except Fault (Taken α)} {fuel : Nat} {first : Bool}
  {gathered : List (String × α)} {s t rest : List Char}

/-- One more member in front of those that follow. -/
theorem members_part {p q : Prop} {name : String} {a : α} {all : List (String × α)}
    {after : List Char} (hnext : nextKey first s = .ok (.part (name, ':' :: t)))
    (hvalue : ReadsIf p a rest (value t))
    (hmore : ReadsIf q all after (members (gather value) fuel false ((name, a) :: gathered) rest)) :
    ReadsIf (p ∧ q) all after (members (gather value) (fuel + 1) first gathered s) := by
  have hread : members (gather value) (fuel + 1) first gathered s =
      (gather value gathered name (':' :: t) >>= fun taken =>
        members (gather value) fuel false taken.1 taken.2) := by
    rw [members, hnext]
    rfl
  have hmember : ReadsIf p ((name, a) :: gathered) rest (gather value gathered name (':' :: t)) :=
    (hvalue.below (.key name)).map fun a => (name, a) :: gathered
  rw [hread]
  exact hmember.bind hmore

/-- What holds of every value that can be read holds of all that are gathered. -/
theorem forall_mem_of_members {P : α → Prop} (hvalue : ∀ t a rest, value t = .ok (a, rest) → P a)
    {all : List (String × α)} (hgathered : ∀ member ∈ gathered, P member.2)
    (h : members (gather value) fuel first gathered s = .ok (all, rest)) :
    ∀ member ∈ all, P member.2 := by
  induction fuel generalizing first gathered s with
  | zero => cases h
  | succ fuel ih =>
      obtain ⟨next, -, h⟩ := exists_of_bind_eq_ok h
      cases next with
      | close after =>
          cases h
          exact hgathered
      | part key =>
          obtain ⟨⟨more, t⟩, hstep, h⟩ := exists_of_bind_eq_ok h
          obtain ⟨⟨a, t'⟩, hmember, hstep⟩ := exists_of_bind_eq_ok hstep
          obtain ⟨u, -, hmember⟩ := exists_of_bind_eq_ok hmember
          cases hstep
          refine ih (List.forall_mem_cons.2 ⟨?_, hgathered⟩) h
          exact hvalue u a _ (eq_ok_of_below hmember)

theorem forall_mem_of_named {P : α → Prop} (hvalue : ∀ t a rest, value t = .ok (a, rest) → P a)
    {all : List (String × α)} (h : named value s = .ok (all, rest)) :
    ∀ member ∈ all, P member.2 := by
  rw [named_eq] at h
  obtain ⟨⟨gathered, t⟩, hmembers, h⟩ := exists_of_bind_eq_ok h
  cases h
  intro member hmember
  exact forall_mem_of_members hvalue (by simp) hmembers member (List.mem_reverse.1 hmember)

end Members

section Written

variable {fits : Value → Prop} {read : List Char → Except Fault (Taken Value)} {fuel : Nat}
  {ms : List (String × Value)} {name : String} {v : Value} {after : List Char}

theorem endsNumber_writeMembers (ms : List (String × Value)) (after : List Char) :
    EndsNumber (Value.writeMembers ms after) := by
  cases ms with
  | nil => exact endsNumber_cons after (by decide)
  | cons member ms => exact endsNumber_cons _ (by decide)

theorem forall_members_cons :
    (fits v ∧ ∀ member ∈ ms, fits member.2) ↔ ∀ member ∈ (name, v) :: ms, fits member.2 := by
  rw [List.forall_mem_cons]

/-- The members after the first one, in front of which the earlier ones are gathered. -/
theorem members_writeMembers
    (hvalue : ∀ member ∈ ms, ∀ after, EndsNumber after →
      ReadsIf (fits member.2) member.2 after (read (member.2.write after)))
    (hfuel : ms.length < fuel) (gathered : List (String × Value)) (after : List Char) :
    ReadsIf (∀ member ∈ ms, fits member.2) (ms.reverse ++ gathered) after
      (members (gather read) fuel false gathered (Value.writeMembers ms after)) := by
  induction ms generalizing fuel gathered with
  | nil =>
      obtain ⟨fuel, rfl⟩ : ∃ k, fuel = k + 1 := ⟨fuel - 1, by simp at hfuel; omega⟩
      exact .of_ok rfl (by simp)
  | cons member ms ih =>
      obtain ⟨fuel, rfl⟩ : ∃ k, fuel = k + 1 := ⟨fuel - 1, by omega⟩
      obtain ⟨name, v⟩ := member
      obtain ⟨hfirst, hrest⟩ := List.forall_mem_cons.1 hvalue
      have hmore := ih hrest (Nat.lt_of_succ_lt_succ hfuel) ((name, v) :: gathered)
      rw [List.reverse_cons, List.append_assoc, List.singleton_append]
      exact (members_part (nextKey_comma name _) (hfirst _ (endsNumber_writeMembers ms after))
        hmore).congr forall_members_cons

/-- All members of an object that has one. -/
theorem named_write (fits : Value → Prop)
    (hvalue : ∀ member ∈ (name, v) :: ms, ∀ after, EndsNumber after →
      ReadsIf (fits member.2) member.2 after (read (member.2.write after))) :
    ReadsIf (∀ member ∈ (name, v) :: ms, fits member.2) ((name, v) :: ms) after
      (named read (Value.writeString name (':' :: v.write (Value.writeMembers ms after)))) := by
  obtain ⟨hfirst, hrest⟩ := List.forall_mem_cons.1 hvalue
  have hfuel : ms.length <
      (Value.writeString name (':' :: v.write (Value.writeMembers ms after))).length := by
    have hwritten :=
      Value.length_lt_writeMember name v (v.length_le_write (Value.writeMembers ms after))
    have hmembers : ms.length + after.length < (Value.writeMembers ms after).length :=
      Value.length_lt_writeMembers (fun member _ => member.2.length_le_write) after
    omega
  have hmore := members_writeMembers hrest hfuel [(name, v)] after
  have hall := members_part (nextKey_first name _) (hfirst _ (endsNumber_writeMembers ms after))
    hmore
  have hreversed := hall.map List.reverse
  rw [List.reverse_append, List.reverse_reverse] at hreversed
  exact hreversed.congr forall_members_cons

end Written

end TypedJson.Reader
