import TypedJson.Proofs.Bootstrap.Data

/-!
# How deep a check against the bootstrap types goes

The levels that a check against a bootstrap type needs are bounded by the nesting of the
value alone. For a value of nesting `n`, the check against `data` settles in `3 * n + 3`
levels: each container takes the reference, the union and the form of the container.
The check against `type` settles in `4 * n + 5` levels, since each term goes through two
references, the union and the struct (`settlesIn_term`). A value that is no term at all is
refused within the same bounds.

With `conforms_toValue` this gives the depth at which the type of types accepts every
type, itself included.
-/

set_option autoImplicit false

namespace TypedJson.Bootstrap

open Check

/-- The value, if it is there, has at most this nesting. -/
def Within (n : Nat) (term : Option Value) : Prop :=
  ∀ v ∈ term, v.nesting ≤ n

variable {n : Nat} {env : Env} {term : Option Value}

theorem within_some {v : Value} : Within n (some v) ↔ v.nesting ≤ n := by
  simp [Within]

theorem Within.pos_of_array {items : List Value} (h : Within n (some (.array items))) : 0 < n :=
  Nat.lt_of_lt_of_le (Nat.succ_pos _) (within_some.1 h)

theorem Within.pos_of_object {members : List (String × Value)}
    (h : Within n (some (.object members))) : 0 < n :=
  Nat.lt_of_lt_of_le (Nat.succ_pos _) (within_some.1 h)

theorem Within.item {items : List Value} (h : Within (n + 1) (some (.array items))) {v : Value}
    (hv : v ∈ items) : Within n (some v) :=
  within_some.2 (Value.nesting_array_le_iff.1 (within_some.1 h) v hv)

theorem Within.member {members : List (String × Value)}
    (h : Within (n + 1) (some (.object members))) {member : String × Value}
    (hmember : member ∈ members) : Within n (some member.2) :=
  within_some.2 (Value.nesting_object_le_iff.1 (within_some.1 h) member hmember)

theorem Within.find? {members : List (String × Value)}
    (h : Within (n + 1) (some (.object members))) (name : String) :
    Within n (Entries.find? name members) := by
  intro v hv
  exact within_some.1 (h.member (Entries.mem_of_find? hv))

/-- Items of arrays settle below the array. A value of nesting 0 has none. -/
theorem settlesIn_list {item : Ty} {note : Option Value} {levels : Nat} (hterm : Within n term)
    (h : ∀ m, n = m + 1 → ∀ v, Within m (some v) → SettlesIn levels env (some v) item) :
    SettlesIn (levels + 1) env term (.list item note) := by
  apply SettlesIn.list
  rintro items rfl v hv
  obtain ⟨m, rfl⟩ : ∃ m, n = m + 1 := ⟨n - 1, by have := hterm.pos_of_array; omega⟩
  exact h m rfl v (hterm.item hv)

/-- Members of objects settle below the object, whatever their names. -/
theorem settlesIn_map {value : Ty} {note : Option Value} {levels : Nat} (hterm : Within n term)
    (h : ∀ m, n = m + 1 → ∀ v, Within m (some v) → SettlesIn levels env (some v) value) :
    SettlesIn (levels + 1) env term (.map (basic .string) value note) := by
  apply SettlesIn.map
  rintro members rfl member hmember
  obtain ⟨m, rfl⟩ : ∃ m, n = m + 1 := ⟨n - 1, by have := hterm.pos_of_object; omega⟩
  have hvalue := h m rfl member.2 (hterm.member hmember)
  obtain ⟨fewer, rfl⟩ := hvalue.exists_succ
  exact ⟨.basic .string, hvalue⟩

/-! ## Any value -/

/-- A value of nesting `n` has no greater height. -/
theorem settlesIn_data (hdata : env.lookup "data" = some dataUnion) (hterm : Within n term) :
    SettlesIn (3 * n + 3) env term (ref "data") := by
  cases term with
  | none =>
      apply settlesIn_data_of_parts hdata
      · rintro _ ⟨⟩
      · rintro _ ⟨⟩
  | some v =>
      have hheight := Nat.le_trans v.height_le_nesting (within_some.1 hterm)
      exact (settlesIn_height hdata v).mono (by omega)

/-! ## Terms -/

section Terms

variable (henv : Resolves env typeBindings)

include henv

theorem settlesIn_maybe_data (hterm : Within n term) :
    SettlesIn (3 * n + 5) env term (ref "maybe-data") := by
  have hdata := settlesIn_data (henv "data" _ rfl) hterm
  refine .ref (henv "maybe-data" _ rfl) (.union ?_)
  simp only [List.forall_mem_cons, List.not_mem_nil, false_implies, implies_true, and_true]
  exact ⟨hdata, .basic _⟩

/-- A part settles as fast as a term of the same nesting, given terms that settle. -/
theorem settlesIn_slot
    (h : ∀ m ≤ n, ∀ term, Within m term → SettlesIn (4 * m + 5) env term Bootstrap.term)
    (hterm : Within n term) (slot : Slot) : SettlesIn (4 * n + 5) env term slot.type := by
  have hparts : ∀ m, n = m + 1 → ∀ v, Within m (some v) →
      SettlesIn (4 * n + 4) env (some v) Bootstrap.term := by
    rintro m rfl v hv
    exact (h m (Nat.le_succ m) _ hv).mono (by omega)
  cases slot with
  | sub =>
      apply SettlesIn.union
      exact List.forall_mem_map.2 fun sub _ => .literal _
  | data => exact (settlesIn_data (henv "data" _ rfl) hterm).mono (by omega)
  | text => exact .basic _
  | term => exact h n (Nat.le_refl n) term hterm
  | terms => exact settlesIn_list hterm hparts
  | named => exact settlesIn_map hterm hparts

/-- The struct of a form settles one level above its parts, which are one container
further in. -/
theorem settlesIn_formOf
    (h : ∀ m ≤ n, ∀ term, Within m term → SettlesIn (4 * m + 5) env term Bootstrap.term)
    (hterm : Within (n + 1) term) (kind : Kind) : SettlesIn (4 * n + 6) env term (formOf kind) := by
  apply SettlesIn.struct
  rintro members rfl
  have hfind := fun name => hterm.find? name
  simp only [List.forall_mem_cons, List.forall_mem_append, List.forall_mem_map,
    List.not_mem_nil, false_implies, implies_true, and_true]
  refine ⟨.literal _, ?_, ?_⟩
  · intro slot _
    exact settlesIn_slot henv h (hfind slot.1) slot.2
  · -- Three levels for a container are less than four, so the note is never the deepest part.
    exact (settlesIn_maybe_data henv (hfind "meta")).mono (by omega)

/-- A check against `type` settles in four levels for each container and five more. The
induction is on the nesting: a reference, the union, the reference to a form and its struct
lie between a term and the terms inside it. -/
theorem settlesIn_term (hterm : Within n term) :
    SettlesIn (4 * n + 5) env term Bootstrap.term := by
  induction n using Nat.strongRecOn generalizing term with
  | ind n ih =>
      have hform : ∀ kind, SettlesIn (4 * n + 2) env term (formOf kind) := by
        intro kind
        cases n with
        | zero =>
            apply SettlesIn.struct
            rintro members rfl
            exact absurd hterm.pos_of_object (Nat.lt_irrefl 0)
        | succ n =>
            exact settlesIn_formOf henv (fun m hm _ => ih m (Nat.lt_succ_of_le hm)) hterm kind
      refine .ref (henv _ _ find?_type) (.union (List.forall_mem_map.2 fun kind _ => ?_))
      exact .ref (henv _ _ (find?_typeBindings kind)) (hform kind)

end Terms

theorem settlesIn_typeType (hterm : Within n term) : SettlesIn (4 * n + 6) env term typeType :=
  .letIn (settlesIn_term (resolves_extend env typeBindings) hterm)

/-- A schema document is one container around a term, two words and a note. -/
theorem settlesIn_schemaType (hterm : Within (n + 1) term) :
    SettlesIn (4 * n + 7) env term schemaType := by
  apply SettlesIn.struct
  rintro members rfl
  have hfind := fun name => hterm.find? name
  have hword : ∀ name text, SettlesIn (4 * n + 6) env (Entries.find? name members)
      (.union [word text] none) := by
    intro name text
    apply SettlesIn.union
    exact List.forall_mem_singleton.2 (.literal _)
  have hnote : SettlesIn (3 * n + 4) env (Entries.find? "meta" members) dataType :=
    .letIn (settlesIn_data (resolves_extend env _ _ _ rfl) (hfind "meta"))
  simp only [List.forall_mem_cons, List.not_mem_nil, false_implies, implies_true, and_true]
  exact ⟨settlesIn_typeType (hfind "t"), hword _ _, hword _ _, hnote.mono (by omega)⟩

/-! ## Self-description -/

/-- The type of types accepts every type as data, unions without alternatives and itself
included, at every depth from `4 * n + 5` on for a type that is written with nesting `n`.
Beyond the depth of the first try this takes a work area. -/
theorem typeType_accepts_toValue (t : Ty) (checker : Checker)
    (hdepth : 4 * t.toValue.nesting + 5 ≤ checker.maxDepth.toNat) :
    (∀ room, (Checker.shallow < checker.maxDepth → room = true) →
      checker.checkGiven room .empty (some t.toValue) typeType = .ok ()) ∧
    ((Checker.shallow < checker.maxDepth → checker.hasRoom = true) →
      checker.check (some t.toValue) typeType = .ok ()) := by
  have hsettles : SettlesIn (checker.maxDepth.toNat + 1) .empty (some t.toValue) typeType :=
    (settlesIn_typeType (within_some.2 (Nat.le_refl _))).mono (by omega)
  have hconforms : Conforms .empty (some t.toValue) typeType :=
    conforms_typeType_iff.2 (conforms_toValue (resolves_extend _ typeBindings) t)
  constructor
  · intro room hroom
    exact Checker.checkGiven_of_conforms hroom hsettles hconforms
  · intro hroom
    exact Checker.checkGiven_of_conforms hroom hsettles hconforms

/-- The type of types is written with nesting 7, so depth 33 is enough for it, without a
work area. Lists around an empty union go beyond the first try. -/
theorem typeType_accepts_toValue_nested :
    let deep : Ty := Nat.repeat (fun t => .list t (some .null)) 31 (.union [] none)
    (typeType.toValue.nesting = 7 ∧
      Checker.checkGiven false ⟨33⟩ .empty (some typeType.toValue) typeType = .ok ()) ∧
    deep.toValue.nesting = 33 ∧ Checker.check ⟨137⟩ (some deep.toValue) typeType = .ok () := by
  refine ⟨⟨by decide +kernel, ?_⟩, by decide +kernel, ?_⟩
  · exact (typeType_accepts_toValue typeType ⟨33⟩ (by decide +kernel)).1 false (by decide)
  · exact (typeType_accepts_toValue _ ⟨137⟩ (by decide +kernel)).2 (by decide)

end TypedJson.Bootstrap
