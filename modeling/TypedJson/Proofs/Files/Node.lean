import TypedJson.Files.Node
import TypedJson.Proofs.Entries

/-!
# Places in a tree of files

What is put in a directory stands there (`Node.at?_put_self`). If no directory stood in its place,
then all other places stay: a directory may hold something new, and what is no directory is as it
was (`Node.exists_at?_put`). An empty directory that is put where nothing stands changes no file
(`Node.file?_put_absent`).
-/

set_option autoImplicit false

namespace TypedJson

namespace Node

variable {node new : Node} {name : String} {place : List String}

theorem at?_append (node : Node) (place more : List String) :
    node.at? (place ++ more) = (node.at? place).bind fun inner => inner.at? more := by
  induction place generalizing node with
  | nil => rfl
  | cons name rest ih =>
      rw [List.cons_append, at?, at?]
      cases node.child? name with
      | none => rfl
      | some child => exact ih child

theorem exists_entries (h : node.isDirectory = true) : ∃ entries, node = .directory entries := by
  cases node with
  | directory entries => exact ⟨entries, rfl⟩
  | text contents => cases h
  | binary => cases h

/-- Nothing lies under what is no directory. -/
theorem at?_cons_of_not_directory (h : node.isDirectory = false) (name : String)
    (rest : List String) : node.at? (name :: rest) = none := by
  cases node with
  | directory entries => cases h
  | text contents => rfl
  | binary => rfl

/-- A place inside a directory is looked for in what is put, or where it was. -/
theorem at?_put_cons (new : Node) (name other : String) (rest more : List String)
    (entries : List (String × Node)) :
    (put new (name :: rest) (.directory entries)).at? (other :: more) =
      if name = other then
        (put new rest ((Entries.find? name entries).getD (.directory []))).at? more
      else (Node.directory entries).at? (other :: more) := by
  by_cases hname : name = other
  · simp [put, at?, child?, Entries.find?_insert, hname]
  · simp [put, at?, child?, Entries.find?_insert, hname]

/-- What is put in a directory stands there. The induction is on the way to the directory. -/
theorem at?_put_self {entries : List (String × Node)}
    (h : node.at? place = some (.directory entries)) :
    (put new (place ++ [name]) node).at? (place ++ [name]) = some new := by
  induction place generalizing node with
  | nil =>
      cases h
      rw [List.nil_append, at?_put_cons, if_pos rfl]
      rfl
  | cons first rest ih =>
      cases node with
      | directory inside =>
          cases hfind : Entries.find? first inside with
          | none => simp [at?, child?, hfind] at h
          | some child =>
              have hchild : child.at? rest = some (.directory entries) := by
                simpa [at?, child?, hfind] using h
              rw [List.cons_append, at?_put_cons, if_pos rfl, hfind, Option.getD_some]
              exact ih hchild
      | text contents => cases h
      | binary => cases h

/-- A directory stays a directory, whatever it holds, and all else stays as it is. -/
def Stays (before after : Node) : Prop :=
  after = before ∨ before.isDirectory = true ∧ after.isDirectory = true

/-- All else stays when something is put where no directory stands. -/
theorem exists_at?_put (hfree : ∀ old, node.at? place = some old → old.isDirectory = false)
    {other : List String} {before : Node} (h : node.at? other = some before)
    (hne : other ≠ place) :
    ∃ after, (put new place node).at? other = some after ∧ before.Stays after := by
  induction place generalizing node other with
  | nil =>
      cases other with
      | nil => exact absurd rfl hne
      | cons name rest =>
          rw [at?_cons_of_not_directory (hfree node rfl)] at h
          cases h
  | cons name rest ih =>
      cases node with
      | directory entries =>
          cases other with
          | nil =>
              cases h
              exact ⟨_, rfl, Or.inr ⟨rfl, rfl⟩⟩
          | cons first more =>
              rw [at?_put_cons]
              by_cases hname : name = first
              · subst hname
                cases hfind : Entries.find? name entries with
                | none => simp [at?, child?, hfind] at h
                | some child =>
                    simp only [at?, child?, hfind] at h hfree
                    rw [if_pos rfl, Option.getD_some]
                    exact ih hfree h fun heq => hne (heq ▸ rfl)
              · rw [if_neg hname]
                exact ⟨before, h, Or.inl rfl⟩
      | text contents => exact ⟨before, h, Or.inl rfl⟩
      | binary => exact ⟨before, h, Or.inl rfl⟩

/-! ## Files -/

/-- What stands at a place and is no directory. -/
def file? (node : Node) (place : List String) : Option Node :=
  (node.at? place).filter fun found => !found.isDirectory

theorem file?_empty (place : List String) : (directory []).file? place = none := by
  cases place <;> rfl

/-- An empty directory that is put where nothing stands changes no file. The directories that are
made on the way to it hold none either. -/
theorem file?_put_absent (h : node.at? place = none) (other : List String) :
    (put (.directory []) place node).file? other = node.file? other := by
  induction place generalizing node other with
  | nil => cases h
  | cons name rest ih =>
      cases node with
      | directory entries =>
          cases other with
          | nil => rfl
          | cons first more =>
              rw [file?, at?_put_cons]
              by_cases hname : name = first
              · subst hname
                rw [if_pos rfl]
                cases hfind : Entries.find? name entries with
                | some child =>
                    simp only [at?, child?, hfind] at h
                    simpa only [file?, at?, child?, hfind, Option.getD_some] using ih h more
                | none =>
                    have hnew : (put (.directory []) rest (.directory [])).file? more = none := by
                      cases rest with
                      | nil => exact file?_empty more
                      | cons next _ => rw [ih rfl, file?_empty]
                    simpa only [file?, at?, child?, hfind, Option.getD_none, Option.filter_none]
                      using hnew
              · rw [if_neg hname]
                rfl
      | text contents => rfl
      | binary => rfl

end Node

end TypedJson
