import TypedJson.Proofs.Reader.Container
import TypedJson.Reader.Value

/-!
# Values read back

The compact text of a value reads back as that value exactly when its arrays and
objects are nested no deeper than there is room for; a deeper one is refused for that
reason (`raw_write`). Whatever is read stays within the room (`nesting_le_of_raw`).
Hence `parse` inverts the compact text of every value without repeated names that is
nested at most `maxOpen` deep, and gives such values only.
-/

set_option autoImplicit false

namespace TypedJson.Reader

variable {room : Nat} {v : Value} {s t after : List Char}

/-! ## The first character decides -/

theorem raw_string (text : String) (after : List Char) :
    raw room (Value.writeString text after) = .ok (.string text, after) := by
  have hread : raw room (Value.writeString text after) =
      (quoted (Value.writeChars text.toList after) >>= fun taken =>
        .ok (.string taken.1, taken.2)) := by
    rw [raw]
    rfl
  rw [hread, quoted_writeChars]
  rfl

theorem raw_array (t : List Char) :
    raw (room + 1) ('[' :: t) = items (raw room) (t.length + 1) 0 t >>= fun taken =>
      .ok (.array taken.1, taken.2) := by
  rw [raw]
  rfl

theorem raw_object (t : List Char) :
    raw (room + 1) ('\x7b' :: t) = named (raw room) t >>= fun taken =>
      .ok (.object taken.1, taken.2) := by
  rw [raw]
  rfl

theorem raw_minus (t : List Char) :
    raw room ('-' :: t) = number true t >>= fun taken => .ok (.number taken.1, taken.2) := by
  rw [raw]
  rfl

theorem raw_digit {c : Char} (hc : isDigit c = true) (t : List Char) :
    raw room (c :: t) = number false (c :: t) >>= fun taken =>
      .ok (.number taken.1, taken.2) := by
  have hne : ∀ d, isDigit d = false → c ≠ d := fun d hd => ne_of_isDigit hc hd
  have hword : c ≠ 'n' ∧ c ≠ 't' ∧ c ≠ 'f' := ⟨hne _ rfl, hne _ rfl, hne _ rfl⟩
  have hopen : c ≠ '"' ∧ c ≠ '[' ∧ c ≠ '\x7b' := ⟨hne _ rfl, hne _ rfl, hne _ rfl⟩
  have hminus : c ≠ '-' := hne _ rfl
  rw [raw, skipGap_cons t (isGap_of_isDigit hc)]
  simp [hc, hword, hopen]

theorem raw_text (n : Number) (hafter : EndsNumber after) :
    raw room (n.text ++ after) = .ok (.number n, after) := by
  have hnumber := number_magnitudeText n hafter
  obtain ⟨c, t, htext, hc⟩ := magnitudeText_eq_cons n
  rw [htext, List.cons_append] at hnumber
  rw [Number.text_eq, htext]
  cases hnegative : n.negative with
  | true =>
      rw [hnegative] at hnumber
      simp only [if_true, List.cons_append, raw_minus, hnumber]
      rfl
  | false =>
      rw [hnegative] at hnumber
      simp only [Bool.false_eq_true, if_false, List.cons_append, raw_digit hc, hnumber]
      rfl

/-- Without room no array and no object can be opened. -/
theorem raw_zero_open {c : Char} (hc : c = '[' ∨ c = '\x7b') (t : List Char) :
    raw 0 (c :: t) = .error (.next .nestedTooDeep (c :: t)) := by
  rcases hc with rfl | rfl
  · rw [raw]
    rfl
  · rw [raw]
    rfl

/-! ## Texts of values -/

theorem readsIf_raw_zero {c : Char} (hc : c = '[' ∨ c = '\x7b') (hv : 0 < v.nesting) :
    ReadsIf (v.nesting ≤ 0) v after (raw 0 (c :: t)) := by
  refine ⟨fun h => absurd hv (Nat.not_lt.2 h), fun _ => ?_⟩
  exact ⟨_, raw_zero_open hc t, rfl⟩

/-- The text of a value reads back, as deep as there is room. The induction is on the value;
the room shrinks with every container, and a container fits when all its parts fit the room
that it leaves them. -/
theorem raw_write (v : Value) (room : Nat) (hafter : EndsNumber after) :
    ReadsIf (v.nesting ≤ room) v after (raw room (v.write after)) := by
  induction v using Value.induction generalizing room after with
  | null => exact .of_ok (by rw [raw]; rfl) (Nat.zero_le room)
  | bool b => cases b <;> exact .of_ok (by rw [raw]; rfl) (Nat.zero_le room)
  | number n => exact .of_ok (raw_text n hafter) (Nat.zero_le room)
  | string text => exact .of_ok (raw_string text after) (Nat.zero_le room)
  | array vs ih =>
      cases room with
      | zero =>
          have hpos : 0 < (Value.array vs).nesting := by simp [Value.nesting]
          cases vs <;> exact readsIf_raw_zero (Or.inl rfl) hpos
      | succ room =>
          refine ReadsIf.congr ?_ Value.nesting_array_le_iff.symm
          cases vs with
          | nil => exact .of_ok (by rw [Value.write, raw_array]; rfl) (by simp)
          | cons v rest =>
              rw [Value.write, raw_array]
              exact (items_write (fun u => u.nesting ≤ room)
                fun u hu after h => ih u hu room h).map Value.array
  | object ms ih =>
      cases room with
      | zero =>
          have hpos : 0 < (Value.object ms).nesting := by simp [Value.nesting]
          cases ms <;> exact readsIf_raw_zero (Or.inr rfl) hpos
      | succ room =>
          refine ReadsIf.congr ?_ Value.nesting_object_le_iff.symm
          cases ms with
          | nil => exact .of_ok (by rw [Value.write, raw_object]; rfl) (by simp)
          | cons member rest =>
              obtain ⟨name, v⟩ := member
              rw [Value.write, raw_object]
              exact (named_write (fun u => u.nesting ≤ room)
                fun u hu after h => ih u hu room h).map Value.object

/-! ## What can be read -/

/-- A value that is read is atomic, or an array or an object whose parts are read with
less room. -/
theorem raw_ok_cases {rest : List Char} (h : raw room s = .ok (v, rest)) :
    v.nesting = 0 ∨
      (∃ less t vs, room = less + 1 ∧ v = .array vs ∧
        items (raw less) (t.length + 1) 0 t = .ok (vs, rest)) ∨
      ∃ less t ms, room = less + 1 ∧ v = .object ms ∧ named (raw less) t = .ok (ms, rest) := by
  rw [raw] at h
  split at h
  case h_1 => cases h
  case h_2 | h_3 | h_4 | h_5 | h_8 =>
    obtain ⟨taken, -, h⟩ := exists_of_bind_eq_ok h
    cases h
    exact Or.inl rfl
  case h_6 t _ =>
    cases room with
    | zero => cases h
    | succ less =>
        obtain ⟨⟨vs, rest'⟩, hitems, h⟩ := exists_of_bind_eq_ok h
        cases h
        exact Or.inr (Or.inl ⟨less, t, vs, rfl, rfl, hitems⟩)
  case h_7 t _ =>
    cases room with
    | zero => cases h
    | succ less =>
        obtain ⟨⟨ms, rest'⟩, hmembers, h⟩ := exists_of_bind_eq_ok h
        cases h
        exact Or.inr (Or.inr ⟨less, t, ms, rfl, rfl, hmembers⟩)
  case h_9 =>
    split at h
    · obtain ⟨taken, -, h⟩ := exists_of_bind_eq_ok h
      cases h
      exact Or.inl rfl
    · cases h

/-- What is read is nested no deeper than the room. -/
theorem nesting_le_of_raw {rest : List Char} (h : raw room s = .ok (v, rest)) :
    v.nesting ≤ room := by
  induction room using Nat.strongRecOn generalizing s v rest with
  | ind room ih =>
      rcases raw_ok_cases h with hatom | ⟨less, t, vs, rfl, rfl, hitems⟩ |
        ⟨less, t, ms, rfl, rfl, hmembers⟩
      · rw [hatom]
        exact Nat.zero_le room
      · exact Value.nesting_array_le_iff.2 (forall_mem_of_items
          (fun t u rest hu => ih less (Nat.lt_succ_self less) hu) hitems)
      · exact Value.nesting_object_le_iff.2 (forall_mem_of_named
          (fun t u rest hu => ih less (Nat.lt_succ_self less) hu) hmembers)

theorem exists_of_whole {α : Type} {reader : List Char → Except Fault (Taken α)} {text : String}
    {a : α} (h : whole reader text = .ok a) : ∃ rest, reader text.toList = .ok (a, rest) := by
  cases hread : reader text.toList with
  | error fault =>
      simp only [whole, hread] at h
      cases h
  | ok taken =>
      obtain ⟨b, rest⟩ := taken
      refine ⟨rest, ?_⟩
      cases hfinish : finish rest with
      | error fault =>
          simp only [whole, hread, bind, Except.bind, hfinish] at h
          cases h
      | ok _ =>
          simp only [whole, hread, bind, Except.bind, hfinish] at h
          cases h
          rfl

end TypedJson.Reader

namespace TypedJson

open Reader

/-- A value without repeated names that is nested at most `maxOpen` deep. -/
def Value.Readable (v : Value) : Prop :=
  v.Distinct ∧ v.nesting ≤ maxOpen

/-! ## Whole texts -/

/-- A readable value is parsed back from its compact text. -/
theorem parse_compact {v : Value} (h : v.Readable) : parse v.compact = .ok v := by
  have hraw := (raw_write v maxOpen endsNumber_nil).ok h.2
  have hmerged := Value.merged_of_distinct h.1
  simp [parse, whole, value, Value.compact, hraw, hmerged, finish, skipGap, bind, Except.bind,
    Except.mapError]

/-- The compact text of a value that is nested too deep is refused for that reason. -/
theorem parse_compact_deep {v : Value} (h : maxOpen < v.nesting) :
    ∃ e, parse v.compact = .error e ∧ e.cause = .text .nestedTooDeep := by
  obtain ⟨fault, hraw, hcause⟩ := (raw_write v maxOpen endsNumber_nil).deep (Nat.not_le.2 h)
  refine ⟨.ofFault (v.write []) fault, ?_, hcause⟩
  simp [parse, whole, value, Value.compact, hraw, bind, Except.bind, Except.mapError]

/-- Every parsed value is readable. -/
theorem readable_of_parse {text : String} {v : Value} (h : parse text = .ok v) : v.Readable := by
  obtain ⟨rest, hvalue⟩ := exists_of_whole h
  obtain ⟨⟨u, rest'⟩, hraw, hmerged⟩ := exists_of_bind_eq_ok hvalue
  cases hmerged
  exact ⟨u.distinct_merged, Nat.le_trans u.nesting_merged_le (nesting_le_of_raw hraw)⟩

end TypedJson
