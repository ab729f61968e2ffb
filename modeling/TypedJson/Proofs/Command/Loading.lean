import Mathlib.Data.List.Basic
import TypedJson.Command.Documents
import TypedJson.Proofs.Outcome

/-!
# Loading documents in turn

Inputs are resolved, files are read and parts are selected one after the other, and what each gives
is put together (`Collects`). Hence the whole fails exactly when one part fails, whichever part it
is (`Collects.fails_iff`), and the documents of two lists of inputs are those of the one followed by
those of the other (`Inputs.load_append`).

`Inputs.Hindered` lists what can keep documents from being loaded: a pattern that stands for no
path, a path that cannot be read, a document in which the pointer selects nothing. There is nothing
else (`Inputs.fails_load_iff`).
-/

set_option autoImplicit false

namespace TypedJson

/-! ## Readings that fail -/

section Fails

variable {α β γ ε : Type}

/-- The reading gives no result. -/
def Fails (reading : Except ε α) : Prop :=
  ∃ e, reading = .error e

@[simp]
theorem fails_error (e : ε) : Fails (.error e : Except ε α) :=
  ⟨e, rfl⟩

@[simp]
theorem not_fails_ok (a : α) : ¬ Fails (.ok a : Except ε α) := by
  rintro ⟨e, h⟩
  cases h

theorem fails_or_ok (reading : Except ε α) : Fails reading ∨ ∃ a, reading = .ok a := by
  cases reading with
  | error e => exact Or.inl (fails_error e)
  | ok a => exact Or.inr ⟨a, rfl⟩

/-- One reading after the other fails when the first does, or the second on what the first gives. -/
theorem fails_bind_iff {reading : Except ε α} {f : α → Except ε β} :
    Fails (reading >>= f) ↔ Fails reading ∨ ∃ a, reading = .ok a ∧ Fails (f a) := by
  cases reading with
  | error e => simp [bind, Except.bind]
  | ok a => simp [bind, Except.bind]

/-- Two readings that do not depend on each other fail together exactly when one of them fails. -/
theorem fails_both_iff {first : Except ε α} {second : Except ε β} {f : α → β → γ} :
    Fails (do let a ← first; let b ← second; .ok (f a b)) ↔ Fails first ∨ Fails second := by
  cases first with
  | error e => simp [bind, Except.bind]
  | ok a => cases second <;> simp [bind, Except.bind]

/-- `all` does `one` for each part in turn and puts together what they give. -/
structure Collects (one : α → Except ε (List β)) (all : List α → Except ε (List β)) : Prop where
  nil : all [] = .ok []
  cons : ∀ a rest, all (a :: rest) = do
    let bs ← one a
    let more ← all rest
    .ok (bs ++ more)

namespace Collects

variable {one : α → Except ε (List β)} {all : List α → Except ε (List β)}

theorem cons_eq_ok_iff (h : Collects one all) {a : α} {rest : List α} {found : List β} :
    all (a :: rest) = .ok found ↔
      ∃ bs more, one a = .ok bs ∧ all rest = .ok more ∧ found = bs ++ more := by
  rw [h.cons]
  constructor
  · intro hfound
    obtain ⟨bs, hone, hrest⟩ := exists_of_bind_eq_ok hfound
    obtain ⟨more, hall, hlast⟩ := exists_of_bind_eq_ok hrest
    cases hlast
    exact ⟨bs, more, hone, hall, rfl⟩
  · rintro ⟨bs, more, hone, hall, rfl⟩
    rw [hone, hall]
    rfl

/-- The whole fails exactly when one part fails. -/
theorem fails_iff (h : Collects one all) {parts : List α} :
    Fails (all parts) ↔ ∃ a ∈ parts, Fails (one a) := by
  induction parts with
  | nil => simp [h.nil]
  | cons a rest ih => rw [h.cons, fails_both_iff, List.exists_mem_cons_iff, ih]

/-- What is collected comes from one of the parts. -/
theorem mem_iff (h : Collects one all) {parts : List α} {found : List β}
    (hfound : all parts = .ok found) {b : β} :
    b ∈ found ↔ ∃ a ∈ parts, ∃ bs, one a = .ok bs ∧ b ∈ bs := by
  induction parts generalizing found with
  | nil =>
      rw [h.nil] at hfound
      cases hfound
      simp
  | cons a rest ih =>
      obtain ⟨bs, more, hone, hall, rfl⟩ := h.cons_eq_ok_iff.1 hfound
      rw [List.mem_append, ih hall, List.exists_mem_cons_iff, hone]
      simp

end Collects

end Fails

namespace Inputs

variable {files : Files} {inputs : Inputs}

theorem collects_resolveAll (files : Files) : Collects (resolve files) (resolveAll files) :=
  ⟨rfl, fun _ _ => rfl⟩

theorem collects_loadFiles (files : Files) (inputs : Inputs) :
    Collects (inputs.loadFile files) (inputs.loadFiles files) :=
  ⟨rfl, fun _ _ => rfl⟩

theorem collects_selectAll (pointer : Option String) :
    Collects (fun document => (select pointer document).map fun selected => [selected])
      (selectAll pointer) := by
  refine ⟨rfl, ?_⟩
  intro document rest
  rw [selectAll]
  cases select pointer document <;> rfl

/-! ## Two lists of inputs -/

/-- One of the inputs stands for the path. -/
def Covers (files : Files) (inputs : Inputs) (path : String) : Prop :=
  ∃ input ∈ inputs.patterns, ∃ paths, resolve files input = .ok paths ∧ path ∈ paths

/-- The documents cannot be loaded, for one of them or for one of the inputs. -/
inductive Hindered (files : Files) (inputs : Inputs) : Prop where
  /-- A pattern is faulty or matches nothing. -/
  | unresolved {input : String} : input ∈ inputs.patterns → isPattern input = true →
      (∀ paths, Glob.search files input = .ok paths → paths = []) → Hindered files inputs
  /-- A path leads nowhere, or to no text. -/
  | unreadable {path : String} {e : FileError} : inputs.Covers files path →
      files.read path = .error e → Hindered files inputs
  /-- The pointer selects nothing in a document that is a value. -/
  | unselected {path contents pointer : String} {document : Document} {v : Value} :
      inputs.Covers files path → files.read path = .ok contents →
      document ∈ split inputs.perLine path contents → inputs.pointer = some pointer →
      parse document.text = .ok v → Pointer.select pointer v = none → Hindered files inputs

theorem fails_resolve_iff {input : String} :
    Fails (resolve files input) ↔ isPattern input = true ∧
      ∀ paths, Glob.search files input = .ok paths → paths = [] := by
  rw [resolve]
  by_cases hpattern : isPattern input = true
  · rw [if_pos hpattern]
    cases Glob.search files input with
    | error e => simp [hpattern]
    | ok paths =>
        cases paths with
        | nil => simp [hpattern]
        | cons path rest => simp [hpattern]
  · simp [hpattern]

theorem fails_select_iff {pointer : Option String} {document : Document} :
    Fails (select pointer document) ↔ ∃ p v, pointer = some p ∧ parse document.text = .ok v ∧
      Pointer.select p v = none := by
  cases pointer with
  | none => simp [select]
  | some p =>
      rw [select]
      cases parse document.text with
      | error e => simp
      | ok v =>
          simp only
          cases hselect : Pointer.select p v with
          | none => simp [hselect]
          | some part => simp [hselect]

theorem fails_loadFile_iff {path : String} :
    Fails (inputs.loadFile files path) ↔ Fails (files.read path) ∨
      ∃ contents, files.read path = .ok contents ∧
        ∃ document ∈ split inputs.perLine path contents,
          Fails (select inputs.pointer document) := by
  rw [loadFile]
  cases files.read path with
  | error e => simp
  | ok contents =>
      simp only [not_fails_ok, false_or, Except.ok.injEq, exists_eq_left',
        (collects_selectAll inputs.pointer).fails_iff]
      refine exists_congr fun document => and_congr_right fun _ => ?_
      cases select inputs.pointer document <;> simp [Except.map]

/-- Loading fails when an input stands for no path, or a path that one stands for cannot be
loaded. -/
theorem fails_load_iff_parts : Fails (inputs.load files) ↔
    (∃ input ∈ inputs.patterns, Fails (resolve files input)) ∨
      ∃ path, inputs.Covers files path ∧ Fails (inputs.loadFile files path) := by
  have hresolve : Fails (resolveAll files inputs.patterns) ↔
      ∃ input ∈ inputs.patterns, Fails (resolve files input) :=
    (collects_resolveAll files).fails_iff
  rw [load, fails_bind_iff, ← hresolve]
  constructor
  · rintro (hfails | ⟨paths, hpaths, hload⟩)
    · exact Or.inl hfails
    · obtain ⟨path, hmem, hpath⟩ := (collects_loadFiles files inputs).fails_iff.1 hload
      exact Or.inr ⟨path, ((collects_resolveAll files).mem_iff hpaths).1 hmem, hpath⟩
  · rintro (hfails | ⟨path, hcovers, hpath⟩)
    · exact Or.inl hfails
    · rcases fails_or_ok (resolveAll files inputs.patterns) with hfails | ⟨paths, hpaths⟩
      · exact Or.inl hfails
      · have hmem : path ∈ paths := ((collects_resolveAll files).mem_iff hpaths).2 hcovers
        exact Or.inr ⟨paths, hpaths,
          (collects_loadFiles files inputs).fails_iff.2 ⟨path, hmem, hpath⟩⟩

/-- Documents can be loaded unless one of them hinders it. The order of the inputs does not matter:
a late one hinders as an early one does. -/
theorem fails_load_iff : Fails (inputs.load files) ↔ inputs.Hindered files := by
  rw [fails_load_iff_parts]
  constructor
  · rintro (⟨input, hinput, hfails⟩ | ⟨path, hcovers, hfails⟩)
    · obtain ⟨hpattern, hnone⟩ := fails_resolve_iff.1 hfails
      exact .unresolved hinput hpattern hnone
    · rcases fails_loadFile_iff.1 hfails with
        ⟨e, hread⟩ | ⟨contents, hread, document, hmem, hselect⟩
      · exact .unreadable hcovers hread
      · obtain ⟨pointer, v, hpointer, hparse, hnone⟩ := fails_select_iff.1 hselect
        exact .unselected hcovers hread hmem hpointer hparse hnone
  · intro h
    cases h with
    | unresolved hinput hpattern hnone =>
        exact Or.inl ⟨_, hinput, fails_resolve_iff.2 ⟨hpattern, hnone⟩⟩
    | unreadable hcovers hread =>
        exact Or.inr ⟨_, hcovers, fails_loadFile_iff.2 (Or.inl ⟨_, hread⟩)⟩
    | unselected hcovers hread hmem hpointer hparse hnone =>
        have hselect := fails_select_iff.2 ⟨_, _, hpointer, hparse, hnone⟩
        exact Or.inr ⟨_, hcovers, fails_loadFile_iff.2 (Or.inr ⟨_, hread, _, hmem, hselect⟩)⟩

end Inputs

end TypedJson
