import TypedJson.Proofs.Check.Scoping
import TypedJson.Proofs.Type

/-!
# What a check can meet

A check goes from a type to the terms inside it and from a name to the type bound to it.
Lets on the way bring further names into force, but never a binding that was not written
down at the start: the terms and the bindings in reach of a check only get fewer from one
level to the next (`Consults.termsInReach_subset`, `Consults.bindingsInReach_subset`).
Both are finite lists, so that what holds of every type in reach has a common bound.
-/

set_option autoImplicit false

namespace TypedJson

namespace Ty

mutual

/-- The type and every term inside it. -/
def terms : Ty → List Ty
  | .union alts note => .union alts note :: termsIn alts
  | .struct fields note => .struct fields note :: termsNamed fields
  | .map key value note => .map key value note :: (terms key ++ terms value)
  | .list item note => .list item note :: terms item
  | .tuple items note => .tuple items note :: termsIn items
  | .letIn bindings body note =>
      .letIn bindings body note :: (termsNamed bindings ++ terms body)
  | t => [t]

/-- `terms` of every type of a list. -/
def termsIn : List Ty → List Ty
  | [] => []
  | t :: rest => terms t ++ termsIn rest

/-- `terms` of every named type. -/
def termsNamed : List (String × Ty) → List Ty
  | [] => []
  | (_, t) :: rest => terms t ++ termsNamed rest

end

variable {u : Ty}

theorem mem_termsIn {ts : List Ty} : u ∈ termsIn ts ↔ ∃ t ∈ ts, u ∈ t.terms := by
  induction ts with
  | nil => simp [termsIn]
  | cons t rest ih => simp [termsIn, ih]

theorem mem_termsNamed {named : List (String × Ty)} :
    u ∈ termsNamed named ↔ ∃ entry ∈ named, u ∈ entry.2.terms := by
  induction named with
  | nil => simp [termsNamed]
  | cons entry rest ih => simp [termsNamed, ih]

theorem self_mem_terms (t : Ty) : t ∈ t.terms := by
  cases t <;> simp [terms]

/-- The bindings of a let; no other term has any. -/
def ownBindings : Ty → List (String × Ty)
  | .letIn bindings _ _ => bindings
  | _ => []

theorem terms_subset_of_ownBindings {t : Ty} {binding : String × Ty}
    (h : binding ∈ t.ownBindings) : binding.2.terms ⊆ t.terms := by
  cases t with
  | letIn bindings body note =>
      intro u hu
      have hnamed := mem_termsNamed.2 ⟨binding, h, hu⟩
      exact List.mem_cons_of_mem _ (List.mem_append_left _ hnamed)
  | _ => cases h

end Ty

namespace Env

/-- Inside a type, the bindings in force are its own and those around it. -/
theorem mem_flatten_entered {env : Env} {ty : Ty} {binding : String × Ty} :
    binding ∈ (env.entered ty).scopes.flatten ↔
      binding ∈ ty.ownBindings ∨ binding ∈ env.scopes.flatten := by
  cases ty <;> simp [entered, extend, Ty.ownBindings]

/-- Inside a type, its own bindings come first. -/
theorem lookup_entered (env : Env) (ty : Ty) (name : String) :
    (env.entered ty).lookup name =
      (Entries.find? name ty.ownBindings).or (env.lookup name) := by
  cases ty with
  | letIn bindings body note =>
      change lookupIn name (bindings :: env.scopes) = _
      cases hfind : Entries.find? name bindings <;>
        simp [lookupIn, hfind, Ty.ownBindings, lookup]
  | _ => rfl

end Env

namespace Check

/-- The terms that a check can meet: those inside the type, and those inside the types that
are bound in the environment. -/
def termsInReach (env : Env) (ty : Ty) : List Ty :=
  ty.terms ++ Ty.termsNamed env.scopes.flatten

/-- The bindings that a check can meet: those in the environment, and those of every let
that it can meet. -/
def bindingsInReach (env : Env) (ty : Ty) : List (String × Ty) :=
  env.scopes.flatten ++ (termsInReach env ty).flatMap Ty.ownBindings

variable {env env' : Env} {term term' : Option Value} {ty ty' : Ty}

theorem self_mem_termsInReach : ty ∈ termsInReach env ty :=
  List.mem_append_left _ ty.self_mem_terms

theorem mem_termsInReach {u : Ty} : u ∈ termsInReach env ty ↔
    u ∈ ty.terms ∨ ∃ binding ∈ env.scopes.flatten, u ∈ binding.2.terms := by
  rw [termsInReach, List.mem_append, Ty.mem_termsNamed]

/-- What a name means is a binding of the environment. -/
theorem mem_flatten_of_lookup {name : String} {meaning : Ty} (h : env.lookup name = some meaning) :
    (name, meaning) ∈ env.scopes.flatten := by
  obtain ⟨home, hclosure⟩ := Env.exists_closure_of_lookup h
  obtain ⟨scope, outer, -, hsuffix, hfind⟩ := Env.exists_of_closure hclosure
  exact List.mem_flatten.2
    ⟨scope, hsuffix.subset List.mem_cons_self, Entries.mem_of_find? hfind⟩

/-- What is consulted is a part of the type, or what a name means. One case for each way to
consult a check. -/
theorem Consults.terms_subset_or_lookup (h : Consults env term ty env' term' ty') :
    ty'.terms ⊆ ty.terms ∨ ∃ name, env.lookup name = some ty' := by
  cases h with
  | ref hname => exact Or.inr ⟨_, hname⟩
  | letIn =>
      refine Or.inl fun u hu => ?_
      exact List.mem_cons_of_mem _ (List.mem_append_right _ hu)
  | union hmem =>
      refine Or.inl fun u hu => ?_
      exact List.mem_cons_of_mem _ (Ty.mem_termsIn.2 ⟨_, hmem, hu⟩)
  | field _ hmem =>
      refine Or.inl fun u hu => ?_
      exact List.mem_cons_of_mem _ (Ty.mem_termsNamed.2 ⟨_, hmem, hu⟩)
  | key =>
      refine Or.inl fun u hu => ?_
      exact List.mem_cons_of_mem _ (List.mem_append_left _ hu)
  | member =>
      refine Or.inl fun u hu => ?_
      exact List.mem_cons_of_mem _ (List.mem_append_right _ hu)
  | item => exact Or.inl (List.subset_cons_self _ _)
  | part _ hmem =>
      refine Or.inl fun u hu => ?_
      exact List.mem_cons_of_mem _ (Ty.mem_termsIn.2 ⟨_, (List.of_mem_zip hmem).2, hu⟩)

/-- Every term in reach of a consulted check was in reach before. -/
theorem Consults.termsInReach_subset (h : Consults env term ty env' term' ty') :
    termsInReach env' ty' ⊆ termsInReach env ty := by
  intro u hu
  rcases mem_termsInReach.1 hu with hpart | ⟨binding, hbinding, hinside⟩
  · rcases h.terms_subset_or_lookup with hsubset | ⟨name, hname⟩
    · exact mem_termsInReach.2 (Or.inl (hsubset hpart))
    · exact mem_termsInReach.2 (Or.inr ⟨_, mem_flatten_of_lookup hname, hpart⟩)
  · -- A scope that is new is part of a let, so its types were in reach as terms of the let.
    rw [h.env_eq, Env.mem_flatten_entered] at hbinding
    rcases hbinding with hown | hold
    · exact mem_termsInReach.2 (Or.inl (Ty.terms_subset_of_ownBindings hown hinside))
    · exact mem_termsInReach.2 (Or.inr ⟨binding, hold, hinside⟩)

theorem mem_bindingsInReach {binding : String × Ty} : binding ∈ bindingsInReach env ty ↔
    binding ∈ env.scopes.flatten ∨ ∃ u ∈ termsInReach env ty, binding ∈ u.ownBindings := by
  rw [bindingsInReach, List.mem_append, List.mem_flatMap]

/-- Every binding in reach of a consulted check was in reach before. -/
theorem Consults.bindingsInReach_subset (h : Consults env term ty env' term' ty') :
    bindingsInReach env' ty' ⊆ bindingsInReach env ty := by
  intro binding hbinding
  rcases mem_bindingsInReach.1 hbinding with hbound | ⟨u, hu, hown⟩
  · rw [h.env_eq, Env.mem_flatten_entered] at hbound
    rcases hbound with hown | hold
    · exact mem_bindingsInReach.2 (Or.inr ⟨_, self_mem_termsInReach, hown⟩)
    · exact mem_bindingsInReach.2 (Or.inl hold)
  · exact mem_bindingsInReach.2 (Or.inr ⟨u, h.termsInReach_subset hu, hown⟩)

end Check

end TypedJson
