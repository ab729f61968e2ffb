import TypedJson.Proofs.Value
import TypedJson.Type

/-!
# Properties of every term inside a type

`Ty.All p t` says that `p` holds of `t` and of every term inside it: alternatives,
fields, keys, items, bindings and bodies, but not the values that a term carries. Two
such properties matter for types as data. `Ty.Distinct`: no struct and no let repeats a
name, and no value in the type does. `Ty.UnionsNonempty`: every union has an alternative.
-/

set_option autoImplicit false

namespace TypedJson.Ty

/-- Induction on types, with the hypothesis for every term directly inside. -/
@[elab_as_elim]
theorem induction {motive : Ty → Prop} (basic : ∀ sub note, motive (.basic sub note))
    (literal : ∀ value note, motive (.literal value note))
    (union : ∀ alts note, (∀ t ∈ alts, motive t) → motive (.union alts note))
    (struct : ∀ fields note, (∀ field ∈ fields, motive field.2) → motive (.struct fields note))
    (map : ∀ key value note, motive key → motive value → motive (.map key value note))
    (list : ∀ item note, motive item → motive (.list item note))
    (tuple : ∀ items note, (∀ t ∈ items, motive t) → motive (.tuple items note))
    (letIn : ∀ bindings body note, (∀ binding ∈ bindings, motive binding.2) → motive body →
      motive (.letIn bindings body note))
    (ref : ∀ name note, motive (.ref name note)) (t : Ty) : motive t := by
  refine @Ty.rec motive (fun ts => ∀ t ∈ ts, motive t)
    (fun named => ∀ entry ∈ named, motive entry.2) (fun entry => motive entry.2)
    basic literal union struct map list tuple letIn ref (by simp) ?_ (by simp) ?_
    (fun _ _ h => h) t
  · intro t rest ht hrest
    exact List.forall_mem_cons.2 ⟨ht, hrest⟩
  · intro entry rest hentry hrest
    exact List.forall_mem_cons.2 ⟨hentry, hrest⟩

/-! ## Every term inside -/

mutual

/-- The property holds of the type and of every term inside it. -/
def All (p : Ty → Prop) : Ty → Prop
  | .basic sub note => p (.basic sub note)
  | .literal value note => p (.literal value note)
  | .union alts note => p (.union alts note) ∧ AllIn p alts
  | .struct fields note => p (.struct fields note) ∧ AllNamed p fields
  | .map key value note => p (.map key value note) ∧ All p key ∧ All p value
  | .list item note => p (.list item note) ∧ All p item
  | .tuple items note => p (.tuple items note) ∧ AllIn p items
  | .letIn bindings body note =>
      p (.letIn bindings body note) ∧ AllNamed p bindings ∧ All p body
  | .ref name note => p (.ref name note)

/-- `All` for every type of a list. -/
def AllIn (p : Ty → Prop) : List Ty → Prop
  | [] => True
  | t :: rest => All p t ∧ AllIn p rest

/-- `All` for every named type. -/
def AllNamed (p : Ty → Prop) : List (String × Ty) → Prop
  | [] => True
  | (_, t) :: rest => All p t ∧ AllNamed p rest

end

variable {p : Ty → Prop}

theorem allIn_iff {ts : List Ty} : AllIn p ts ↔ ∀ t ∈ ts, t.All p := by
  induction ts with
  | nil => simp [AllIn]
  | cons t rest ih => rw [AllIn, ih, List.forall_mem_cons]

theorem allNamed_iff {named : List (String × Ty)} :
    AllNamed p named ↔ ∀ entry ∈ named, entry.2.All p := by
  induction named with
  | nil => simp [AllNamed]
  | cons entry rest ih => rw [AllNamed, ih, List.forall_mem_cons]

mutual

/-- Whether a decidable property holds of every term inside can be computed. -/
def decAll [DecidablePred p] : (t : Ty) → Decidable (t.All p)
  | .basic sub note => inferInstanceAs (Decidable (p (.basic sub note)))
  | .literal value note => inferInstanceAs (Decidable (p (.literal value note)))
  | .union alts note =>
      haveI := decAllIn alts
      inferInstanceAs (Decidable (p (.union alts note) ∧ AllIn p alts))
  | .struct fields note =>
      haveI := decAllNamed fields
      inferInstanceAs (Decidable (p (.struct fields note) ∧ AllNamed p fields))
  | .map key value note =>
      haveI := decAll key
      haveI := decAll value
      inferInstanceAs (Decidable (p (.map key value note) ∧ All p key ∧ All p value))
  | .list item note =>
      haveI := decAll item
      inferInstanceAs (Decidable (p (.list item note) ∧ All p item))
  | .tuple items note =>
      haveI := decAllIn items
      inferInstanceAs (Decidable (p (.tuple items note) ∧ AllIn p items))
  | .letIn bindings body note =>
      haveI := decAllNamed bindings
      haveI := decAll body
      inferInstanceAs
        (Decidable (p (.letIn bindings body note) ∧ AllNamed p bindings ∧ All p body))
  | .ref name note => inferInstanceAs (Decidable (p (.ref name note)))

/-- `decAll` for every type of a list. -/
def decAllIn [DecidablePred p] : (ts : List Ty) → Decidable (AllIn p ts)
  | [] => isTrue trivial
  | t :: rest =>
      haveI := decAll t
      haveI := decAllIn rest
      inferInstanceAs (Decidable (All p t ∧ AllIn p rest))

/-- `decAll` for every named type. -/
def decAllNamed [DecidablePred p] : (named : List (String × Ty)) → Decidable (AllNamed p named)
  | [] => isTrue trivial
  | (_, t) :: rest =>
      haveI := decAll t
      haveI := decAllNamed rest
      inferInstanceAs (Decidable (All p t ∧ AllNamed p rest))

end

/-! ## Names and alternatives -/

/-- The term repeats no name of its own, and neither does a value that it carries. -/
def OwnDistinct (t : Ty) : Prop :=
  (∀ v ∈ t.note, v.Distinct) ∧
    match t with
    | .literal value _ => value.Distinct
    | .struct fields _ => Entries.Distinct fields
    | .letIn bindings _ _ => Entries.Distinct bindings
    | _ => True

instance : DecidablePred OwnDistinct := fun t =>
  match t with
  | .literal value note =>
      inferInstanceAs (Decidable ((∀ v ∈ note, v.Distinct) ∧ value.Distinct))
  | .struct fields note =>
      inferInstanceAs (Decidable ((∀ v ∈ note, v.Distinct) ∧ Entries.Distinct fields))
  | .letIn bindings _ note =>
      inferInstanceAs (Decidable ((∀ v ∈ note, v.Distinct) ∧ Entries.Distinct bindings))
  | .basic _ note | .union _ note | .map _ _ note | .list _ note | .tuple _ note
  | .ref _ note => inferInstanceAs (Decidable ((∀ v ∈ note, v.Distinct) ∧ True))

/-- No struct and no let of the type repeats a name, and no value in it does. -/
def Distinct (t : Ty) : Prop :=
  t.All OwnDistinct

instance : DecidablePred Ty.Distinct := fun t => decAll t

/-- The term is no union without alternatives. -/
def HasAlternative : Ty → Prop
  | .union alts _ => alts ≠ []
  | _ => True

instance : DecidablePred HasAlternative := fun t =>
  match t with
  | .union alts _ => inferInstanceAs (Decidable (alts ≠ []))
  | .basic .. | .literal .. | .struct .. | .map .. | .list .. | .tuple .. | .letIn ..
  | .ref .. => isTrue trivial

/-- Every union of the type has an alternative. -/
def UnionsNonempty (t : Ty) : Prop :=
  t.All HasAlternative

instance : DecidablePred UnionsNonempty := fun t => decAll t

section UnionsNonempty

variable {note : Option Value}

theorem unionsNonempty_union {alts : List Ty} :
    (union alts note).UnionsNonempty ↔ (∀ t ∈ alts, t.UnionsNonempty) ∧ alts ≠ [] := by
  simp only [UnionsNonempty, All, allIn_iff, HasAlternative]
  exact and_comm

theorem unionsNonempty_struct {fields : List (String × Ty)} :
    (struct fields note).UnionsNonempty ↔ ∀ field ∈ fields, field.2.UnionsNonempty := by
  simp only [UnionsNonempty, All, allNamed_iff, HasAlternative, true_and]

theorem unionsNonempty_map {key value : Ty} :
    (map key value note).UnionsNonempty ↔ key.UnionsNonempty ∧ value.UnionsNonempty := by
  simp only [UnionsNonempty, All, HasAlternative, true_and]

theorem unionsNonempty_list {item : Ty} :
    (list item note).UnionsNonempty ↔ item.UnionsNonempty := by
  simp only [UnionsNonempty, All, HasAlternative, true_and]

theorem unionsNonempty_tuple {items : List Ty} :
    (tuple items note).UnionsNonempty ↔ ∀ t ∈ items, t.UnionsNonempty := by
  simp only [UnionsNonempty, All, allIn_iff, HasAlternative, true_and]

theorem unionsNonempty_letIn {bindings : List (String × Ty)} {body : Ty} :
    (letIn bindings body note).UnionsNonempty ↔
      (∀ binding ∈ bindings, binding.2.UnionsNonempty) ∧ body.UnionsNonempty := by
  simp only [UnionsNonempty, All, allNamed_iff, HasAlternative, true_and]

end UnionsNonempty

end TypedJson.Ty
