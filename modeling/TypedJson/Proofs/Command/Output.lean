import TypedJson.Command.Run
import TypedJson.Proofs.Files

/-!
# Saved texts

`Command.save` makes the directory that is to hold a text and then writes it. Whether that works
does not depend on the text (`CanSave.exists_savesAt`). A saved text can be read again
(`CanSave.read_save`) and saved again (`CanSave.again`), and a file that was not replaced is read
as before (`CanSave.read_other`). A text that cannot be saved changes no file (`save_refused`).

Commands print their output or save it where it is asked for. `saveTo` is the part of this that
concerns files, and `Writable` says that it works.
-/

set_option autoImplicit false

namespace TypedJson.Command

variable {files : Files} {path : String}

/-- Some text can be saved at the path. -/
def CanSave (files : Files) (path : String) : Prop :=
  ∃ contents, (save files path contents).2 = none

/-- A text saved at `out` stands where `path` has led so far. -/
def Replaces (files : Files) (out path : String) : Prop :=
  ∃ place, files.locate path = .ok place ∧ (save files out "").1.locate out = .ok place

/-- Where and how a text is saved: `made` are the files with the directories that it needs. -/
structure SavesAt (files : Files) (path : String) (made : Files) (place : List String)
    (name : String) : Prop where
  directories : files.makeDirectories ((Path.parent? path).getD "") = (made, none)
  writes : made.WritesAt path place name

theorem SavesAt.save_eq {made : Files} {place : List String} {name : String}
    (h : SavesAt files path made place name) (contents : String) :
    save files path contents = (made.put (place ++ [name]) (.text contents), none) := by
  simp only [save, h.directories, h.writes.write_eq contents]

section Saving

variable (hhere : files.hasDirectory files.here = true) (h : CanSave files path)
include hhere h

/-- What can be saved is saved in one way, whatever its contents. -/
theorem CanSave.exists_savesAt : ∃ made place name, SavesAt files path made place name := by
  obtain ⟨contents, hsave⟩ := h
  rw [save] at hsave
  generalize hmade : files.makeDirectories ((Path.parent? path).getD "") = result at hsave
  obtain ⟨made, failure⟩ := result
  cases failure with
  | some e => cases hsave
  | none =>
      have hkeeps := Files.keeps_makeDirectories hhere ((Path.parent? path).getD "")
      rw [hmade] at hkeeps
      simp only at hsave
      cases hwrite : made.write path contents with
      | error e =>
          rw [hwrite] at hsave
          cases hsave
      | ok files' =>
          obtain ⟨place, name, hwrites⟩ :=
            Files.exists_writesAt_of_write (hkeeps.hasHere hhere) hwrite
          exact ⟨made, place, name, hmade, hwrites⟩

/-- A saved text changes the one place that its path then leads to, and this place does not
depend on the text. -/
theorem CanSave.exists_place : ∃ place, ∀ contents,
    (save files path contents).1.locate path = .ok place ∧
      Files.Keeps [place] files (save files path contents).1 := by
  obtain ⟨made, place, name, hsaves⟩ := h.exists_savesAt hhere
  have hmade := Files.keeps_makeDirectories hhere ((Path.parent? path).getD "")
  rw [hsaves.directories] at hmade
  refine ⟨place ++ [name], fun contents => ?_⟩
  rw [hsaves.save_eq]
  exact ⟨hsaves.writes.locate_put contents, hmade.trans (hsaves.writes.keeps contents)⟩

/-- A saved text can be read again. -/
theorem CanSave.read_save (contents : String) :
    (save files path contents).1.read path = .ok contents := by
  obtain ⟨made, place, name, hsaves⟩ := h.exists_savesAt hhere
  rw [hsaves.save_eq]
  exact hsaves.writes.read_put contents

/-- A file that is not replaced is read as before. -/
theorem CanSave.read_other {other text : String} (hother : ¬ Replaces files path other)
    (hread : files.read other = .ok text) (contents : String) :
    (save files path contents).1.read other = .ok text := by
  obtain ⟨place, hplace⟩ := h.exists_place hhere
  apply (hplace contents).2.read hread
  intro found hfound hmem
  apply hother
  rw [List.mem_singleton.1 hmem] at hfound
  exact ⟨place, hfound, (hplace "").1⟩

theorem CanSave.hasHere (contents : String) :
    (save files path contents).1.hasDirectory (save files path contents).1.here = true := by
  obtain ⟨place, hplace⟩ := h.exists_place hhere
  exact (hplace contents).2.hasHere hhere

/-- What was saved can be saved again. The directories are there, and no directory has come to stand
in the place of the text. -/
theorem CanSave.again (contents : String) : CanSave (save files path contents).1 path := by
  obtain ⟨made, place, name, hsaves⟩ := h.exists_savesAt hhere
  rw [hsaves.save_eq]
  have hmade : (files.makeDirectories ((Path.parent? path).getD "")).2 = none := by
    rw [hsaves.directories]
  have hkeeps : Files.Keeps [place ++ [name]]
      (files.makeDirectories ((Path.parent? path).getD "")).1
      (made.put (place ++ [name]) (.text contents)) := by
    rw [hsaves.directories]
    exact hsaves.writes.keeps contents
  have hagain : SavesAt (made.put (place ++ [name]) (.text contents)) path
      (made.put (place ++ [name]) (.text contents)) place name :=
    ⟨Files.makeDirectories_again hhere hmade hkeeps, hsaves.writes.again contents⟩
  exact ⟨contents, by rw [hagain.save_eq]⟩

end Saving

/-! ## Texts that cannot be saved -/

/-- An error of saving at a path: the directory could not be made, or the text not be written. -/
inductive OfSaving (path : String) : CommandError → Prop where
  | directory (e : FileError) : OfSaving path (.directoryNotMade ((Path.parent? path).getD "") e)
  | text (e : FileError) : OfSaving path (.outputNotWritten path e)

/-- A text that cannot be saved changes no file. Directories that were made for it hold none. -/
theorem save_refused {contents : String} {e : CommandError}
    (h : (save files path contents).2 = some e) :
    OfSaving path e ∧ ∀ place, (save files path contents).1.file? place = files.file? place := by
  have hmade : ∀ place, (files.makeDirectories ((Path.parent? path).getD "")).1.file? place =
      files.file? place :=
    Files.file?_makeDirectories _
  unfold save at h ⊢
  dsimp only at h ⊢
  generalize files.makeDirectories ((Path.parent? path).getD "") = result at h hmade ⊢
  obtain ⟨made, failure⟩ := result
  cases failure with
  | some failure =>
      dsimp only at h hmade ⊢
      cases h
      exact ⟨.directory failure, hmade⟩
  | none =>
      dsimp only at h hmade ⊢
      cases hwrite : made.write path contents with
      | ok files' =>
          rw [hwrite] at h
          cases h
      | error failure =>
          rw [hwrite] at h
          cases h
          exact ⟨.text failure, hmade⟩

/-- Why a text cannot be saved does not depend on the text. -/
theorem save_error_eq (files : Files) (path contents other : String) :
    (save files path contents).2 = (save files path other).2 := by
  unfold save
  dsimp only
  generalize files.makeDirectories ((Path.parent? path).getD "") = result
  obtain ⟨made, failure⟩ := result
  cases failure with
  | some failure => rfl
  | none =>
      simp only
      cases hwrite : made.write path contents with
      | error failure => rw [Files.write_refused hwrite other]
      | ok files' =>
          cases hother : made.write path other with
          | ok _ => rfl
          | error failure =>
              rw [Files.write_refused hother contents] at hwrite
              cases hwrite

theorem canSave_iff (contents : String) :
    CanSave files path ↔ (save files path contents).2 = none := by
  constructor
  · rintro ⟨other, hother⟩
    rw [save_error_eq files path contents other, hother]
  · intro h
    exact ⟨contents, h⟩

/-! ## Output that is asked for -/

/-- The files after a text is saved where it is asked for, and why it could not be saved. -/
def saveTo (files : Files) (out : Option String) (contents : String) :
    Files × Option CommandError :=
  out.elim (files, none) fun path => save files path contents

theorem saveTo_some (contents : String) :
    saveTo files (some path) contents = save files path contents := rfl

/-- Where output is asked for, it can be saved. -/
def Writable (files : Files) (out : Option String) : Prop :=
  ∀ path, out = some path → CanSave files path

theorem saveTo_eq_none_iff {out : Option String} (contents : String) :
    (saveTo files out contents).2 = none ↔ Writable files out := by
  cases out with
  | none => simp [saveTo, Writable]
  | some path =>
      rw [saveTo_some, ← canSave_iff]
      simp [Writable]

theorem saveTo_refused {out : Option String} {contents : String} {e : CommandError}
    (h : (saveTo files out contents).2 = some e) :
    ∃ path, out = some path ∧ OfSaving path e ∧
      ∀ place, (saveTo files out contents).1.file? place = files.file? place := by
  cases out with
  | none => cases h
  | some path =>
      rw [saveTo_some] at h ⊢
      exact ⟨path, rfl, save_refused h⟩

/-- A text is printed unless it is to be saved. -/
theorem emit_eq (files : Files) (out : Option String) (contents : String) :
    emit files out contents = ⟨out.elim (line contents) fun _ => "", "",
      (saveTo files out contents).1, (saveTo files out contents).2.isNone,
      (saveTo files out contents).2⟩ := by
  unfold emit
  cases out with
  | none => rfl
  | some path =>
      simp only [saveTo_some, Option.elim_some]
      generalize save files path contents = result
      obtain ⟨files', failure⟩ := result
      cases failure <;> rfl

end TypedJson.Command
