import TypedJson.Proofs.Check.Reach
import TypedJson.Proofs.Check.Settling

/-!
# Checks that need no guard

A check goes on with the same value at a reference, a let and a union, and only there: the
parts of a struct, a map, a list or a tuple are checked against less of the value. A name
is *exposed* in a type when it is referred to outside of these four. When every name can be
ranked above the names that are exposed in what it is bound to, no check runs in a circle,
and the levels that it needs grow no faster than the nesting of the value
(`settles_of_ranked`).

The proof counts levels. `Ty.cost` is what a check spends on one value, given what each
name costs; a rank gives costs that cover every binding (`exists_covered`). With them, each
step of a check takes from what is left to be spent (`potential_lt`).
-/

set_option autoImplicit false

namespace TypedJson

namespace Ty

mutual

/-- The names that the type refers to outside of structs, maps, lists and tuples, and outside
of the bindings of its lets: what they mean is checked against the same value. -/
def exposed : Ty → List String
  | .ref name _ => [name]
  | .union alts _ => exposedIn alts
  | .letIn _ body _ => exposed body
  | _ => []

/-- The names that are exposed in some type of the list. -/
def exposedIn : List Ty → List String
  | [] => []
  | t :: rest => exposed t ++ exposedIn rest

end

theorem mem_exposedIn {ts : List Ty} {name : String} :
    name ∈ exposedIn ts ↔ ∃ t ∈ ts, name ∈ t.exposed := by
  induction ts with
  | nil => simp [exposedIn]
  | cons t rest ih => simp [exposedIn, ih]

mutual

/-- The levels that a check against the type spends on one value, when what a name means
costs `weight name` levels. -/
def cost (weight : String → Nat) : Ty → Nat
  | .ref name _ => weight name + 1
  | .union alts _ => costIn weight alts + 1
  | .letIn _ body _ => cost weight body + 1
  | _ => 1

/-- The greatest `cost` in a list of types. -/
def costIn (weight : String → Nat) : List Ty → Nat
  | [] => 0
  | t :: rest => max (cost weight t) (costIn weight rest)

end

variable {weight : String → Nat}

theorem costIn_le_iff {ts : List Ty} {n : Nat} :
    costIn weight ts ≤ n ↔ ∀ t ∈ ts, t.cost weight ≤ n := by
  induction ts with
  | nil => simp [costIn]
  | cons t rest ih => rw [costIn, Nat.max_le, ih, List.forall_mem_cons]

theorem cost_le_costIn (weight : String → Nat) {ts : List Ty} {t : Ty} (h : t ∈ ts) :
    t.cost weight ≤ costIn weight ts :=
  costIn_le_iff.1 (Nat.le_refl _) t h

theorem cost_pos (weight : String → Nat) (t : Ty) : 0 < t.cost weight := by
  cases t <;> exact Nat.succ_pos _

/-- Names add to the cost of a type no more than the dearest exposed one costs. -/
theorem cost_le_add {bound : Nat} (t : Ty) (h : ∀ name ∈ t.exposed, weight name ≤ bound) :
    t.cost weight ≤ t.cost (fun _ => 0) + bound := by
  induction t using Ty.induction with
  | ref name note =>
      have hname := h name (List.mem_singleton.2 rfl)
      simp only [cost]
      omega
  | union alts note ih =>
      have halts : costIn weight alts ≤ costIn (fun _ => 0) alts + bound := by
        refine costIn_le_iff.2 fun t ht => ?_
        have hcost := ih t ht fun name hname => h name (mem_exposedIn.2 ⟨t, ht, hname⟩)
        exact Nat.le_trans hcost (Nat.add_le_add_right (cost_le_costIn _ ht) bound)
      simp only [cost]
      omega
  | letIn bindings body note _ ih =>
      have hbody := ih h
      simp only [cost]
      omega
  | _ => exact Nat.le_add_right _ _

end Ty

namespace Check

/-- The nesting of a value; a missing one has none. -/
def nestingOf : Option Value → Nat
  | some v => v.nesting
  | none => 0

/-- What is found in an object is less nested than the object, also when nothing is. -/
theorem nestingOf_find?_lt (name : String) (members : List (String × Value)) :
    nestingOf (Entries.find? name members) < (Value.object members).nesting := by
  cases hfind : Entries.find? name members with
  | none => exact Nat.succ_pos _
  | some v => exact Value.nesting_lt_object (Entries.mem_of_find? hfind)

/-- The costs cover the bindings in reach, each name at least what it is bound to, and no
term in reach costs more than `most`. -/
structure Covered (weight : String → Nat) (most : Nat) (env : Env) (ty : Ty) : Prop where
  bindings : ∀ binding ∈ bindingsInReach env ty, binding.2.cost weight ≤ weight binding.1
  terms : ∀ u ∈ termsInReach env ty, u.cost weight ≤ most

variable {weight : String → Nat} {most : Nat} {env env' : Env} {term term' : Option Value}
  {ty ty' : Ty}

theorem Covered.consults (hcovered : Covered weight most env ty)
    (h : Consults env term ty env' term' ty') : Covered weight most env' ty' where
  bindings binding hbinding := hcovered.bindings binding (h.bindingsInReach_subset hbinding)
  terms u hu := hcovered.terms u (h.termsInReach_subset hu)

/-- What a check may still spend: the cost of its type on the value it has, and as much as
any term costs for each container that is left to enter. -/
def potential (weight : String → Nat) (most : Nat) (term : Option Value) (ty : Ty) : Nat :=
  nestingOf term * most + ty.cost weight

/-- A step into a container is paid for by the container. -/
theorem potential_lt_of_nesting (hnesting : nestingOf term' < nestingOf term)
    (hcost : ty'.cost weight ≤ most) :
    potential weight most term' ty' < potential weight most term ty := by
  have hpaid : (nestingOf term' + 1) * most ≤ nestingOf term * most :=
    Nat.mul_le_mul_right most hnesting
  have hpos := ty.cost_pos weight
  simp only [potential]
  rw [Nat.succ_mul] at hpaid
  omega

/-- Every step of a check takes from what it may still spend. References, unions and lets go
on with the same value at less cost; all other steps enter a container. -/
theorem potential_lt (hcovered : Covered weight most env ty)
    (h : Consults env term ty env' term' ty') :
    potential weight most term' ty' < potential weight most term ty := by
  have hcost : ty'.cost weight ≤ most := (hcovered.consults h).terms ty' self_mem_termsInReach
  cases h with
  | @ref name _ note hname =>
      have hbound : (name, ty') ∈ bindingsInReach env (.ref name note) :=
        mem_bindingsInReach.2 (Or.inl (mem_flatten_of_lookup hname))
      have hweight : ty'.cost weight ≤ weight name := hcovered.bindings _ hbound
      simp only [potential, Ty.cost]
      omega
  | letIn =>
      simp only [potential, Ty.cost]
      omega
  | union hmem =>
      have halt := Ty.cost_le_costIn weight hmem
      simp only [potential, Ty.cost]
      omega
  | field hterm hmem =>
      subst hterm
      exact potential_lt_of_nesting (nestingOf_find?_lt _ _) hcost
  | key hterm hmem =>
      subst hterm
      exact potential_lt_of_nesting (Nat.succ_pos _) hcost
  | member hterm hmem =>
      subst hterm
      exact potential_lt_of_nesting (Value.nesting_lt_object hmem) hcost
  | item hterm hmem =>
      subst hterm
      exact potential_lt_of_nesting (Value.nesting_lt_array hmem) hcost
  | part hterm hmem =>
      subst hterm
      exact potential_lt_of_nesting (Value.nesting_lt_array (List.of_mem_zip hmem).1) hcost

/-- A check settles in as many levels as it may spend. The induction is on the levels. -/
theorem settlesIn_potential (hcovered : Covered weight most env ty) {levels : Nat}
    (hle : potential weight most term ty ≤ levels) : SettlesIn levels env term ty := by
  induction levels generalizing env term ty with
  | zero =>
      have hpos := ty.cost_pos weight
      simp only [potential] at hle
      omega
  | succ levels ih =>
      apply SettlesIn.of_consults
      intro env' term' ty' hconsults
      have hless := potential_lt hcovered hconsults
      exact ih (hcovered.consults hconsults) (by omega)

/-! ## Ranked names -/

/-- The rank of a name is greater than that of every name exposed in what it is bound to. -/
def Ranked (rank : String → Nat) (env : Env) (ty : Ty) : Prop :=
  ∀ binding ∈ bindingsInReach env ty, ∀ name ∈ binding.2.exposed, rank name < rank binding.1

instance (rank : String → Nat) (env : Env) (ty : Ty) : Decidable (Ranked rank env ty) :=
  inferInstanceAs (Decidable (∀ binding ∈ bindingsInReach env ty, ∀ name ∈ binding.2.exposed,
    rank name < rank binding.1))

/-- Where names are ranked, costs can be found that cover every binding. A name costs the
greatest height of a binding once more for each rank. -/
theorem exists_covered {rank : String → Nat} (h : Ranked rank env ty) :
    ∃ weight most, Covered weight most env ty := by
  let height := Ty.costIn (fun _ => 0) ((bindingsInReach env ty).map Prod.snd)
  let weight : String → Nat := fun name => (rank name + 1) * height
  refine ⟨weight, Ty.costIn weight (termsInReach env ty), ?_, fun u hu => Ty.cost_le_costIn _ hu⟩
  intro binding hbinding
  have hheight : binding.2.cost (fun _ => 0) ≤ height :=
    Ty.cost_le_costIn _ (List.mem_map_of_mem hbinding)
  -- Exposed names have a lower rank, so each of them costs a height less.
  have hexposed : ∀ name ∈ binding.2.exposed, weight name ≤ rank binding.1 * height := by
    intro name hname
    exact Nat.mul_le_mul_right height (h binding hbinding name hname)
  calc binding.2.cost weight
      ≤ binding.2.cost (fun _ => 0) + rank binding.1 * height := binding.2.cost_le_add hexposed
    _ ≤ height + rank binding.1 * height := Nat.add_le_add_right hheight _
    _ = weight binding.1 := by rw [Nat.add_comm, ← Nat.succ_mul]

/-- The guard stops only checks that run in a circle or that it leaves too few levels. Where
the names in reach can be ranked, there is a cost, the same for all values, such that that
many levels for each container around the innermost point of a value, and once more, are
always enough. So no check of a great enough depth is given up. -/
theorem settles_of_ranked (env : Env) (ty : Ty) (rank : String → Nat) (h : Ranked rank env ty) :
    ∃ most : Nat, ∀ term : Option Value,
      (∀ (levels : Nat) (limit : UInt64), (nestingOf term + 1) * most ≤ levels →
        Settled (checkAt limit levels env term ty)) ∧
      ∀ maxDepth limit : UInt64, (nestingOf term + 1) * most ≤ maxDepth.toNat →
        Checker.checkGiven true ⟨maxDepth⟩ env term ty ≠ .error (.recursionLimit limit) := by
  obtain ⟨weight, most, hcovered⟩ := exists_covered h
  refine ⟨most, fun term => ?_⟩
  have hpotential : potential weight most term ty ≤ (nestingOf term + 1) * most := by
    rw [Nat.succ_mul]
    exact Nat.add_le_add_left (hcovered.terms ty self_mem_termsInReach) _
  have hsettles : SettlesIn ((nestingOf term + 1) * most) env term ty :=
    settlesIn_potential hcovered hpotential
  constructor
  · intro levels limit hle
    exact hsettles.mono hle limit
  · intro maxDepth limit hle hgaveUp
    have hsettled := hsettles.mono (Nat.le_succ_of_le hle) maxDepth
    rw [Checker.checkGiven_true, upTo] at hgaveUp
    rw [hgaveUp] at hsettled
    cases hsettled

/-- Lists and objects that refer to each other, with a name that is bound again further in
and then means the other one at once. -/
theorem settles_of_ranked_shadowed :
    let ty : Ty := .letIn
      [("a", .union [.ref "b" none, .list (.ref "a" none) none] none),
        ("b", .union [.basic .null none, .struct
          [("x", .ref "a" none), ("y", .letIn [("a", .ref "b" none)] (.ref "a" none) none)] none]
          none)]
      (.ref "a" none) none
    let rank : String → Nat := fun name => if name = "a" then 1 else 0
    Ranked rank .empty ty ∧
    ∃ most : Nat, ∀ (term : Option Value) (levels : Nat) (limit : UInt64),
      (nestingOf term + 1) * most ≤ levels → Settled (checkAt limit levels .empty term ty) := by
  intro ty rank
  have hranked : Ranked rank .empty ty := by decide +zetaReduce
  obtain ⟨most, hmost⟩ := settles_of_ranked .empty ty rank hranked
  exact ⟨hranked, most, fun term => (hmost term).1⟩

end Check

end TypedJson
