import TypedJson.Proofs.Check.Levels
import TypedJson.Proofs.Entries

/-!
# Names in scope

The names of a let are in scope in its body and in all of its bindings. `Ty.freeNames`
are the names that a type refers to outside of the lets that bind them. An environment is
closed when each of its scopes refers only to its own names and to those of the scopes
around it (`Env.Closed`).

Every check that a level consults is in scope when the level itself is
(`Consults.closed`): a let adds the names that its parts may use, and what a name is bound
to uses the names of its own scope and of those around it, all of which are still in force.
-/

set_option autoImplicit false

namespace TypedJson

namespace Ty

mutual

/-- The names that the type refers to and leaves to its environment. -/
def freeNames : Ty → List String
  | .ref name _ => [name]
  | .letIn bindings body _ =>
      (freeNamesNamed bindings ++ freeNames body).filter (· ∉ Entries.names bindings)
  | .union alts _ => freeNamesIn alts
  | .struct fields _ => freeNamesNamed fields
  | .map key value _ => freeNames key ++ freeNames value
  | .list item _ => freeNames item
  | .tuple items _ => freeNamesIn items
  | _ => []

/-- The free names of every type of a list. -/
def freeNamesIn : List Ty → List String
  | [] => []
  | t :: rest => freeNames t ++ freeNamesIn rest

/-- The free names of every named type. -/
def freeNamesNamed : List (String × Ty) → List String
  | [] => []
  | (_, t) :: rest => freeNames t ++ freeNamesNamed rest

end

theorem freeNames_subset_of_mem {t : Ty} {ts : List Ty} (h : t ∈ ts) :
    t.freeNames ⊆ freeNamesIn ts := by
  induction ts with
  | nil => cases h
  | cons u rest ih =>
      rw [freeNamesIn]
      rcases List.mem_cons.1 h with rfl | hrest
      · exact List.subset_append_left _ _
      · exact List.Subset.trans (ih hrest) (List.subset_append_right _ _)

theorem freeNames_subset_of_mem_named {entry : String × Ty} {named : List (String × Ty)}
    (h : entry ∈ named) : entry.2.freeNames ⊆ freeNamesNamed named := by
  induction named with
  | nil => cases h
  | cons other rest ih =>
      rw [freeNamesNamed]
      rcases List.mem_cons.1 h with rfl | hrest
      · exact List.subset_append_left _ _
      · exact List.Subset.trans (ih hrest) (List.subset_append_right _ _)

/-- What is free in a let has its names in scope as well. -/
theorem freeNames_letIn_subset_iff {bindings : Bindings} {body : Ty} {note : Option Value}
    {names : List String} :
    (Ty.letIn bindings body note).freeNames ⊆ names ↔
      freeNamesNamed bindings ⊆ Entries.names bindings ++ names ∧
        body.freeNames ⊆ Entries.names bindings ++ names := by
  rw [← List.append_subset]
  constructor
  · intro h name hname
    by_cases hown : name ∈ Entries.names bindings
    · exact List.mem_append_left _ hown
    · exact List.mem_append_right _ (h (List.mem_filter.2 ⟨hname, decide_eq_true hown⟩))
  · intro h name hname
    obtain ⟨hmem, hown⟩ := List.mem_filter.1 hname
    exact (List.mem_append.1 (h hmem)).resolve_left (of_decide_eq_true hown)

end Ty

namespace Env

/-- The names in force. -/
def names (env : Env) : List String :=
  Entries.names env.scopes.flatten

theorem names_extend (env : Env) (scope : Bindings) :
    (env.extend scope).names = Entries.names scope ++ env.names := by
  simp [names, extend, Entries.names]

/-- Each scope refers only to its own names and to those of the scopes around it. -/
def ClosedIn : List Bindings → Prop
  | [] => True
  | scope :: outer =>
      (∀ binding ∈ scope, binding.2.freeNames ⊆ names ⟨scope :: outer⟩) ∧ ClosedIn outer

/-- Whether scopes are closed can be computed. -/
def decClosedIn : (scopes : List Bindings) → Decidable (ClosedIn scopes)
  | [] => isTrue trivial
  | scope :: outer =>
      haveI := decClosedIn outer
      inferInstanceAs (Decidable ((∀ binding ∈ scope,
        binding.2.freeNames ⊆ names ⟨scope :: outer⟩) ∧ ClosedIn outer))

/-- What is bound in the environment can be understood in it. -/
def Closed (env : Env) : Prop :=
  ClosedIn env.scopes

instance (env : Env) : Decidable env.Closed :=
  decClosedIn env.scopes

/-- The meaning of a name in a stack of scopes, with the scopes from the one that binds the
name outwards. -/
def closureIn (name : String) : List Bindings → Option (Ty × Env)
  | [] => none
  | scope :: outer =>
      match Entries.find? name scope with
      | some meaning => some (meaning, ⟨scope :: outer⟩)
      | none => closureIn name outer

/-- The meaning of a name, with the environment in which it was bound. -/
def closure (env : Env) (name : String) : Option (Ty × Env) :=
  closureIn name env.scopes

variable {env : Env} {name : String}

theorem lookup_eq_map_closure : env.lookup name = (env.closure name).map Prod.fst := by
  obtain ⟨scopes⟩ := env
  change lookupIn name scopes = (closureIn name scopes).map Prod.fst
  induction scopes with
  | nil => rfl
  | cons scope outer ih =>
      cases hfind : Entries.find? name scope with
      | some meaning => simp only [lookupIn, closureIn, hfind, Option.map_some]
      | none => simpa only [lookupIn, closureIn, hfind] using ih

/-- The environment of a name begins with a scope that binds it and goes on with all the
scopes around that one. -/
theorem exists_of_closure {meaning : Ty} {home : Env}
    (h : env.closure name = some (meaning, home)) :
    ∃ scope outer, home = ⟨scope :: outer⟩ ∧ scope :: outer <:+ env.scopes ∧
      Entries.find? name scope = some meaning := by
  obtain ⟨scopes⟩ := env
  change closureIn name scopes = some (meaning, home) at h
  change ∃ scope outer, home = ⟨scope :: outer⟩ ∧ scope :: outer <:+ scopes ∧ _
  induction scopes with
  | nil => cases h
  | cons scope outer ih =>
      cases hfind : Entries.find? name scope with
      | some found =>
          simp only [closureIn, hfind] at h
          cases h
          exact ⟨scope, outer, rfl, List.suffix_rfl, hfind⟩
      | none =>
          simp only [closureIn, hfind] at h
          obtain ⟨inner, around, hhome, hsuffix, hinner⟩ := ih h
          exact ⟨inner, around, hhome, hsuffix.trans (List.suffix_cons scope outer), hinner⟩

theorem closure_eq_none_iff : env.closure name = none ↔ name ∉ env.names := by
  obtain ⟨scopes⟩ := env
  change closureIn name scopes = none ↔ name ∉ Entries.names scopes.flatten
  induction scopes with
  | nil => simp [closureIn, Entries.names]
  | cons scope outer ih =>
      have hnames : Entries.names (scope :: outer).flatten =
          Entries.names scope ++ Entries.names outer.flatten := List.map_append
      rw [hnames, List.mem_append, not_or, ← ih, ← Entries.find?_eq_none_iff]
      cases hfind : Entries.find? name scope <;> simp [closureIn, hfind]

theorem exists_closure_of_mem (h : name ∈ env.names) :
    ∃ meaning home, env.closure name = some (meaning, home) := by
  cases hclosure : env.closure name with
  | none => exact absurd h (closure_eq_none_iff.1 hclosure)
  | some found => exact ⟨found.1, found.2, rfl⟩

theorem lookup_of_closure {meaning : Ty} {home : Env}
    (h : env.closure name = some (meaning, home)) : env.lookup name = some meaning := by
  rw [lookup_eq_map_closure, h, Option.map_some]

theorem lookup_eq_none_iff : env.lookup name = none ↔ name ∉ env.names := by
  rw [lookup_eq_map_closure, Option.map_eq_none_iff, closure_eq_none_iff]

theorem exists_closure_of_lookup {meaning : Ty} (h : env.lookup name = some meaning) :
    ∃ home, env.closure name = some (meaning, home) := by
  rw [lookup_eq_map_closure] at h
  obtain ⟨⟨found, home⟩, hclosure, rfl⟩ := Option.map_eq_some_iff.1 h
  exact ⟨home, hclosure⟩

theorem names_subset_of_suffix {inner outer : List Bindings} (h : outer <:+ inner) :
    names ⟨outer⟩ ⊆ names ⟨inner⟩ := by
  obtain ⟨front, rfl⟩ := h
  simp [names, Entries.names]

theorem ClosedIn.of_suffix {inner outer : List Bindings} (hclosed : ClosedIn inner)
    (h : outer <:+ inner) : ClosedIn outer := by
  obtain ⟨front, rfl⟩ := h
  induction front with
  | nil => exact hclosed
  | cons scope rest ih => exact ih hclosed.2

/-- What a name means can be understood where the name was bound. -/
theorem Closed.closure (hclosed : env.Closed) {meaning : Ty} {home : Env}
    (h : env.closure name = some (meaning, home)) :
    home.Closed ∧ meaning.freeNames ⊆ home.names := by
  obtain ⟨scope, outer, rfl, hsuffix, hfind⟩ := exists_of_closure h
  have hhome : ClosedIn (scope :: outer) := ClosedIn.of_suffix hclosed hsuffix
  exact ⟨hhome, hhome.1 _ (Entries.mem_of_find? hfind)⟩

/-- All that stands in the flattened scopes is bound in one of them. -/
theorem mem_flatten_of_mem_snapshot {binding : String × Ty} (h : binding ∈ env.snapshot) :
    binding ∈ env.scopes.flatten := by
  obtain ⟨scopes⟩ := env
  change binding ∈ flatten scopes at h
  change binding ∈ scopes.flatten
  induction scopes with
  | nil => exact h
  | cons scope outer ih =>
      rw [List.flatten_cons, List.mem_append]
      rcases Entries.mem_or_mem_of_mem_insertAll h with houter | hscope
      · exact Or.inr (ih houter)
      · exact Or.inl hscope

/-- The environment inside a type: a let brings its bindings into force. -/
def entered (env : Env) : Ty → Env
  | .letIn bindings _ _ => env.extend bindings
  | _ => env

end Env

namespace Check

variable {env env' : Env} {term term' : Option Value} {ty ty' : Ty}

theorem Consults.env_eq (h : Consults env term ty env' term' ty') : env' = env.entered ty := by
  cases h <;> rfl

/-- Every check that a level consults is in scope. One case for each way to
consult a check. -/
theorem Consults.closed (h : Consults env term ty env' term' ty') (hclosed : env.Closed)
    (hscoped : ty.freeNames ⊆ env.names) : env'.Closed ∧ ty'.freeNames ⊆ env'.names := by
  cases h with
  | ref hname =>
      obtain ⟨home, hclosure⟩ := Env.exists_closure_of_lookup hname
      obtain ⟨scope, outer, rfl, hsuffix, -⟩ := Env.exists_of_closure hclosure
      have hmeaning := (hclosed.closure hclosure).2
      exact ⟨hclosed, List.Subset.trans hmeaning (Env.names_subset_of_suffix hsuffix)⟩
  | letIn =>
      obtain ⟨hbindings, hbody⟩ := Ty.freeNames_letIn_subset_iff.1 hscoped
      rw [← Env.names_extend] at hbindings hbody
      refine ⟨⟨?_, hclosed⟩, hbody⟩
      intro binding hbinding
      exact List.Subset.trans (Ty.freeNames_subset_of_mem_named hbinding) hbindings
  | union hmem => exact ⟨hclosed, List.Subset.trans (Ty.freeNames_subset_of_mem hmem) hscoped⟩
  | field _ hmem =>
      exact ⟨hclosed, List.Subset.trans (Ty.freeNames_subset_of_mem_named hmem) hscoped⟩
  | key => exact ⟨hclosed, (List.append_subset.1 hscoped).1⟩
  | member => exact ⟨hclosed, (List.append_subset.1 hscoped).2⟩
  | item => exact ⟨hclosed, hscoped⟩
  | part _ hmem =>
      have hpart := Ty.freeNames_subset_of_mem (List.of_mem_zip hmem).2
      exact ⟨hclosed, List.Subset.trans hpart hscoped⟩

end Check

end TypedJson
