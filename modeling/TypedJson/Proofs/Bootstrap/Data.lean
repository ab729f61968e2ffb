import TypedJson.Proofs.Bootstrap.Described
import TypedJson.Proofs.Check.Acceptance
import TypedJson.Proofs.Check.Settling
import TypedJson.Proofs.Codec

/-!
# Any value, at an exact depth

`Value.height` counts the containers with something in them around the innermost point of
a value. A check of a value of height `k` against `data` takes `3 * k + 3` levels: a
reference, a union and an alternative for the value, and as many for each container that
is entered. That many are enough (`settlesIn_height`). They are also needed, since a value
that is accepted has been looked at to its innermost point (`le_levels_of_accepted`).

Every value conforms to the type of all values, so a check against it is never refused:
it is accepted from one depth on, and given up below (`dataType_accepts_at_height`).
-/

set_option autoImplicit false

namespace TypedJson

namespace Value

mutual

/-- The number of containers that are not empty around the innermost point of a value. -/
def height : Value → Nat
  | .array items => heightItems items
  | .object members => heightMembers members
  | _ => 0

/-- One more than the greatest `height` of the items; 0 when there are none. -/
def heightItems : List Value → Nat
  | [] => 0
  | v :: rest => max (height v + 1) (heightItems rest)

/-- One more than the greatest `height` of the members; 0 when there are none. -/
def heightMembers : List (String × Value) → Nat
  | [] => 0
  | (_, v) :: rest => max (height v + 1) (heightMembers rest)

end

theorem heightItems_le_iff {items : List Value} {n : Nat} :
    heightItems items ≤ n ↔ ∀ v ∈ items, v.height + 1 ≤ n := by
  induction items with
  | nil => simp [heightItems]
  | cons v rest ih => rw [heightItems, Nat.max_le, ih, List.forall_mem_cons]

theorem heightMembers_le_iff {members : List (String × Value)} {n : Nat} :
    heightMembers members ≤ n ↔ ∀ member ∈ members, member.2.height + 1 ≤ n := by
  induction members with
  | nil => simp [heightMembers]
  | cons member rest ih => rw [heightMembers, Nat.max_le, ih, List.forall_mem_cons]

theorem height_lt_array {items : List Value} {v : Value} (h : v ∈ items) :
    v.height < (Value.array items).height :=
  heightItems_le_iff.1 (Nat.le_refl _) v h

theorem height_lt_object {members : List (String × Value)} {member : String × Value}
    (h : member ∈ members) : member.2.height < (Value.object members).height :=
  heightMembers_le_iff.1 (Nat.le_refl _) member h

/-- Empty containers count for the nesting but not for the height. -/
theorem height_le_nesting (v : Value) : v.height ≤ v.nesting := by
  induction v using Value.induction with
  | array items ih =>
      refine heightItems_le_iff.2 fun u hu => ?_
      exact Nat.lt_of_le_of_lt (ih u hu) (nesting_lt_array hu)
  | object members ih =>
      refine heightMembers_le_iff.2 fun member hmember => ?_
      exact Nat.lt_of_le_of_lt (ih member hmember) (nesting_lt_object hmember)
  | _ => exact Nat.zero_le _

end Value

namespace Check

variable {env : Env} {term : Option Value}

/-- What conforms is accepted or given up. -/
theorem upTo_of_conforms {ty : Ty} (h : Conforms env term ty) (limit : UInt64) :
    upTo limit env term ty = .ok () ∨ upTo limit env term ty = .error (.recursionLimit limit) := by
  by_cases hsettled : Settled (upTo limit env term ty)
  · exact Or.inl (h.checkAt_eq_ok hsettled)
  · exact Or.inr (upTo_of_not_settled hsettled)

end Check

namespace Bootstrap

open Check

variable {env : Env}

section Data

variable (hdata : env.lookup "data" = some dataUnion)

include hdata

/-- A check against `data` settles three levels above the items and members of the value. -/
theorem settlesIn_data_of_parts {levels : Nat} {term : Option Value}
    (hitems : ∀ items, term = some (.array items) → ∀ v ∈ items,
      SettlesIn levels env (some v) (ref "data"))
    (hmembers : ∀ members, term = some (.object members) → ∀ member ∈ members,
      SettlesIn levels env (some member.2) (ref "data")) :
    SettlesIn (levels + 3) env term (ref "data") := by
  refine .ref hdata (.union ?_)
  simp only [List.forall_mem_cons, List.not_mem_nil, false_implies, implies_true, and_true]
  refine ⟨.basic _, .basic _, .basic _, .basic _, .basic _, .map ?_, .list hitems⟩
  intro members hterm member hmember
  have hvalue := hmembers members hterm member hmember
  obtain ⟨fewer, rfl⟩ := hvalue.exists_succ
  exact ⟨.basic .string, hvalue⟩

/-- Three levels for each container that is entered, and three for the innermost value, are
enough. The induction is on the value. -/
theorem settlesIn_height (v : Value) :
    SettlesIn (3 * v.height + 3) env (some v) (ref "data") := by
  induction v using Value.induction with
  | array items ih =>
      apply settlesIn_data_of_parts hdata
      · rintro _ ⟨⟩ u hu
        have hlt := Value.height_lt_array hu
        exact (ih u hu).mono (by omega)
      · rintro _ ⟨⟩
  | object members ih =>
      apply settlesIn_data_of_parts hdata
      · rintro _ ⟨⟩
      · rintro _ ⟨⟩ member hmember
        have hlt := Value.height_lt_object hmember
        exact (ih member hmember).mono (by omega)
  | _ =>
      apply settlesIn_data_of_parts hdata
      · rintro _ ⟨⟩
      · rintro _ ⟨⟩

/-- An accepted value has taken three levels, and what is in it is accepted below them. -/
theorem parts_of_accepted {limit : UInt64} {levels : Nat} {v : Value}
    (h : checkAt limit levels env (some v) (ref "data") = .ok ()) :
    ∃ fewer, levels = fewer + 3 ∧
      (∀ items, v = .array items → ∀ u ∈ items,
        checkAt limit fewer env (some u) (ref "data") = .ok ()) ∧
      ∀ members, v = .object members → ∀ member ∈ members,
        checkAt limit fewer env (some member.2) (ref "data") = .ok () := by
  obtain ⟨belowRef, rfl, href⟩ := exists_of_checkAt_eq_ok h
  simp only [ref, level, hdata] at href
  obtain ⟨belowUnion, rfl, hunion⟩ := exists_of_checkAt_eq_ok href
  obtain ⟨alt, hmem, halt⟩ := exists_of_union_eq_ok hunion
  obtain ⟨fewer, rfl, haccepts⟩ := exists_of_checkAt_eq_ok halt
  refine ⟨fewer, rfl, ?_, ?_⟩
  · rintro items rfl
    simp only [List.mem_cons, List.not_mem_nil, or_false] at hmem
    rcases hmem with rfl | rfl | rfl | rfl | rfl | rfl | rfl
    iterate 6 cases haccepts
    exact (every_eq_ok_iff _ _).1 haccepts
  · rintro members rfl member hmember
    simp only [List.mem_cons, List.not_mem_nil, or_false] at hmem
    rcases hmem with rfl | rfl | rfl | rfl | rfl | rfl | rfl
    iterate 5 cases haccepts
    · have hmembers := (every_eq_ok_iff _ _).1 haccepts member hmember
      exact ((memberCheck_eq_ok_iff _ _ _ _).1 hmembers).2
    · cases haccepts

/-- Fewer levels are never enough: the innermost value is accepted, and it lies three levels
further down for each container around it. -/
theorem le_levels_of_accepted {limit : UInt64} {levels : Nat} (v : Value)
    (h : checkAt limit levels env (some v) (ref "data") = .ok ()) : 3 * v.height + 3 ≤ levels := by
  induction v using Value.induction generalizing levels with
  | array items ih =>
      obtain ⟨fewer, rfl, hitems, -⟩ := parts_of_accepted hdata h
      have hheight : (Value.array items).height ≤ fewer / 3 := by
        refine Value.heightItems_le_iff.2 fun u hu => ?_
        have hpart := ih u hu (hitems items rfl u hu)
        omega
      omega
  | object members ih =>
      obtain ⟨fewer, rfl, -, hmembers⟩ := parts_of_accepted hdata h
      have hheight : (Value.object members).height ≤ fewer / 3 := by
        refine Value.heightMembers_le_iff.2 fun member hmember => ?_
        have hpart := ih member hmember (hmembers members rfl member hmember)
        omega
      omega
  | _ =>
      obtain ⟨fewer, rfl, -, -⟩ := parts_of_accepted hdata h
      exact Nat.le_add_left 3 fewer

/-- A value is accepted as `data` exactly with three levels for each container that is
entered and three more. -/
theorem checkAt_data_eq_ok_iff {limit : UInt64} {levels : Nat} {v : Value} :
    checkAt limit levels env (some v) (ref "data") = .ok () ↔ 3 * v.height + 3 ≤ levels := by
  constructor
  · exact le_levels_of_accepted hdata v
  · intro hle
    exact ((settlesIn_height hdata v).mono hle).checkAt_eq_ok (conforms_data hdata v) limit

end Data

/-- The let and the reference in it add one level, which is depth 0. -/
theorem upTo_dataType_eq_ok_iff {limit : UInt64} {v : Value} :
    upTo limit env (some v) dataType = .ok () ↔ 3 + 3 * v.height ≤ limit.toNat := by
  have hdata : (env.extend [("data", dataUnion)]).lookup "data" = some dataUnion :=
    resolves_extend env _ _ _ rfl
  rw [Nat.add_comm, ← checkAt_data_eq_ok_iff hdata]
  rfl

/-- A check against the type of all values is accepted or given up, as the depth decides. -/
theorem upTo_dataType (limit : UInt64) (v : Value) :
    upTo limit env (some v) dataType =
      if 3 + 3 * v.height ≤ limit.toNat then .ok () else .error (.recursionLimit limit) := by
  split
  · next henough => exact upTo_dataType_eq_ok_iff.2 henough
  · next hless =>
      rcases upTo_of_conforms (conforms_dataType_iff.2 ⟨v, rfl⟩) limit with hok | hgaveUp
      · exact absurd (upTo_dataType_eq_ok_iff.1 hok) hless
      · exact hgaveUp

/-- The type of all values accepts every value, from one depth on. A value of height `k` is
accepted at every depth from `3 + 3 * k` on and given up below, and a missing value is never
accepted. The default depth lies above that of every value that has a text, so its decoder
takes exactly the texts that are parsed. -/
theorem dataType_accepts_at_height :
    (∀ (v : Value) (maxDepth : UInt64) (room : Bool),
      (Checker.shallow < maxDepth → room = true) →
      Checker.checkGiven room ⟨maxDepth⟩ .empty (some v) dataType =
        if 3 + 3 * v.height ≤ maxDepth.toNat then .ok () else .error (.recursionLimit maxDepth)) ∧
    (∀ (maxDepth : UInt64) (room : Bool),
      Checker.checkGiven room ⟨maxDepth⟩ .empty none dataType ≠ .ok ()) ∧
    ∀ note : Value, ∃ codec, Codec.ofSchema (.json dataType note) {} = .ok codec ∧
      ∀ text v, codec.decode text = .ok ⟨v⟩ ↔ parse text = .ok v := by
  refine ⟨?_, ?_, ?_⟩
  · intro v maxDepth room hroom
    rw [Checker.checkGiven_of_room hroom]
    exact upTo_dataType maxDepth v
  · intro maxDepth room haccepted
    obtain ⟨v, hv⟩ := conforms_dataType_iff.1 (Checker.conforms_of_checkGiven haccepted)
    cases hv
  · intro note
    refine ⟨_, Codec.ofSchema_of_known rfl rfl {}, fun text v => ?_⟩
    rw [Codec.decode_eq_ok_iff]
    refine and_iff_left_of_imp fun hparse => ?_
    -- At nesting 127 the height is no greater, so depth 384 is enough.
    have hheight : v.height ≤ 127 :=
      Nat.le_trans v.height_le_nesting (readable_of_parse hparse).2
    have hdepth : 3 + 3 * v.height ≤ (512 : UInt64).toNat :=
      Nat.le_trans (show _ ≤ 384 by omega) (by decide)
    have hroom : Checker.shallow < 512 → Checker.hasRoom {} = true := fun _ => by decide
    exact (Checker.checkGiven_of_room hroom).trans (upTo_dataType_eq_ok_iff.2 hdepth)

/-- Under 127 arrays an empty object is accepted at depth 384, and no sooner; by itself it
needs no more than a null does. -/
theorem dataType_accepts_at_height_arrays :
    let deep : Value := Nat.repeat (fun v => .array [v]) 127 (.object [])
    deep.height = 127 ∧
    Checker.checkGiven true ⟨384⟩ .empty (some deep) dataType = .ok () ∧
    Checker.checkGiven true ⟨383⟩ .empty (some deep) dataType = .error (.recursionLimit 383) ∧
    Checker.checkGiven false ⟨3⟩ .empty (some (.object [])) dataType = .ok () := by
  intro deep
  have hheight : deep.height = 127 := by decide +kernel +zetaReduce
  refine ⟨hheight, ?_, ?_, ?_⟩
  · refine (dataType_accepts_at_height.1 deep 384 true fun _ => rfl).trans (if_pos ?_)
    rw [hheight]
    decide
  · refine (dataType_accepts_at_height.1 deep 383 true fun _ => rfl).trans (if_neg ?_)
    rw [hheight]
    decide
  · exact (dataType_accepts_at_height.1 (.object []) 3 false (by decide)).trans (if_pos (by decide))

end Bootstrap

end TypedJson
