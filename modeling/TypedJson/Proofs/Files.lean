import Mathlib.Data.List.DropRight
import TypedJson.Files
import TypedJson.Proofs.Files.Node
import TypedJson.Proofs.Outcome

/-!
# What stays in a tree of files

Making directories and writing a text both put something at a place where no directory stands.
`Files.Keeps` says what such a change leaves: directories stay directories, what is present stays
present, and a text keeps its contents unless it stands at a place that was written. Hence a path
that leads somewhere leads to the same place afterwards (`Keeps.locate`), and reading it gives the
same text unless that place was written (`Keeps.read`).

`Files.WritesAt` says when a path can be written: the way to its last component leads to a
directory, and its last component is a name that no directory has there. Nothing else can be
written (`exists_writesAt_of_write`), and what is written can be read again
(`WritesAt.read_put`). What cannot be written cannot be written with other contents either
(`write_refused`).
-/

set_option autoImplicit false

namespace TypedJson

namespace Files

variable {files files' files'' : Files} {place next : List String} {component name path : String}

theorem node?_snoc (files : Files) (place : List String) (name : String) :
    files.node? (place ++ [name]) = (files.node? place).bind (Node.child? name) := by
  rw [node?, Node.at?_append]
  congr 1
  funext inner
  rw [Node.at?]
  cases inner.child? name <;> rfl

theorem hasDirectory_iff :
    files.hasDirectory place = true ↔ ∃ entries, files.node? place = some (.directory entries) := by
  rw [hasDirectory]
  cases files.node? place with
  | none => simp
  | some node => cases node <;> simp [Node.isDirectory]

theorem isSome_of_hasDirectory (h : files.hasDirectory place = true) :
    (files.node? place).isSome = true := by
  obtain ⟨entries, hnode⟩ := hasDirectory_iff.1 h
  rw [hnode]
  rfl

/-- What lies in something lies in a directory. -/
theorem hasDirectory_of_isSome_snoc (h : (files.node? (place ++ [name])).isSome = true) :
    files.hasDirectory place = true := by
  rw [node?_snoc] at h
  cases hnode : files.node? place with
  | none => simp [hnode] at h
  | some node =>
      cases node with
      | directory entries => exact hasDirectory_iff.2 ⟨entries, hnode⟩
      | text contents => simp [hnode, Node.child?] at h
      | binary => simp [hnode, Node.child?] at h

/-! ## One component further -/

/-- A component that names something in a directory. -/
structure Plain (component : String) : Prop where
  notIdle : Path.isIdle component = false
  notUp : component ≠ ".."
  short : component.utf8ByteSize ≤ Path.maxComponent

section Step

variable (hplace : files.hasDirectory place = true)
include hplace

theorem step_idle (h : Path.isIdle component = true) : files.step place component = .ok place := by
  obtain ⟨entries, hnode⟩ := hasDirectory_iff.1 hplace
  simp only [step, hnode, h, if_true]

theorem step_up : files.step place ".." = .ok place.dropLast := by
  obtain ⟨entries, hnode⟩ := hasDirectory_iff.1 hplace
  have hidle : Path.isIdle ".." = false := by decide
  simp only [step, hnode, hidle, beq_self_eq_true, Bool.false_eq_true, if_false, if_true]

theorem step_long (h : Path.isIdle component = false) (hup : component ≠ "..")
    (hlong : Path.maxComponent < component.utf8ByteSize) :
    files.step place component = .error .nameTooLong := by
  obtain ⟨entries, hnode⟩ := hasDirectory_iff.1 hplace
  simp only [step, hnode, h, beq_iff_eq, hup, hlong, Bool.false_eq_true, if_false, if_true]

theorem step_plain (h : Plain component) :
    files.step place component =
      if (files.node? (place ++ [component])).isSome then .ok (place ++ [component])
      else .error .notFound := by
  obtain ⟨entries, hnode⟩ := hasDirectory_iff.1 hplace
  simp only [step, node?_snoc, hnode, h.notIdle, beq_iff_eq, h.notUp, Nat.not_lt.2 h.short,
    Bool.false_eq_true, if_false, Option.bind_some, Node.child?]

end Step

/-- What a component leads to. -/
inductive StepsTo (files : Files) (place : List String) (component : String) :
    Except FileError (List String) → Prop where
  | missing : files.node? place = none → StepsTo files place component (.error .notFound)
  | barred : files.hasDirectory place = false → StepsTo files place component (.error .notDirectory)
  | idle : files.hasDirectory place = true → Path.isIdle component = true →
      StepsTo files place component (.ok place)
  | up : files.hasDirectory place = true → component = ".." →
      StepsTo files place component (.ok place.dropLast)
  | long : StepsTo files place component (.error .nameTooLong)
  | enter : files.hasDirectory place = true → Plain component →
      (files.node? (place ++ [component])).isSome = true →
      StepsTo files place component (.ok (place ++ [component]))
  | absent : files.hasDirectory place = true → Plain component →
      files.node? (place ++ [component]) = none →
      StepsTo files place component (.error .notFound)

/-- There is no other way to go on. -/
theorem stepsTo_step (files : Files) (place : List String) (component : String) :
    StepsTo files place component (files.step place component) := by
  by_cases hplace : files.hasDirectory place = true
  · by_cases hidle : Path.isIdle component = true
    · rw [step_idle hplace hidle]
      exact .idle hplace hidle
    · rw [Bool.not_eq_true] at hidle
      by_cases hup : component = ".."
      · rw [hup, step_up hplace]
        exact .up hplace rfl
      · by_cases hlong : Path.maxComponent < component.utf8ByteSize
        · rw [step_long hplace hidle hup hlong]
          exact .long
        · have hplain : Plain component := ⟨hidle, hup, Nat.not_lt.1 hlong⟩
          rw [step_plain hplace hplain]
          cases hnode : files.node? (place ++ [component]) with
          | none => exact .absent hplace hplain hnode
          | some node => exact .enter hplace hplain (by rw [hnode]; rfl)
  · rw [Bool.not_eq_true] at hplace
    cases hnode : files.node? place with
    | none =>
        simp only [step, hnode]
        exact .missing hnode
    | some node =>
        cases node with
        | directory entries => simp [hasDirectory, hnode, Node.isDirectory] at hplace
        | text contents =>
            simp only [step, hnode]
            exact .barred hplace
        | binary =>
            simp only [step, hnode]
            exact .barred hplace

theorem stepsTo_of_eq {result : Except FileError (List String)}
    (h : files.step place component = result) : StepsTo files place component result :=
  h ▸ files.stepsTo_step place component

/-- A step leads to something that is there. -/
theorem isSome_of_step (h : files.step place component = .ok next) :
    (files.node? next).isSome = true := by
  cases stepsTo_of_eq h with
  | idle hplace _ => exact isSome_of_hasDirectory hplace
  | up hplace _ =>
      rcases List.eq_nil_or_concat' place with rfl | ⟨outer, name, rfl⟩
      · exact isSome_of_hasDirectory hplace
      · rw [List.dropLast_concat]
        exact isSome_of_hasDirectory (hasDirectory_of_isSome_snoc (isSome_of_hasDirectory hplace))
  | enter _ _ hthere => exact hthere

theorem follow_append (files : Files) (place : List String) (parts more : List String) :
    files.follow place (parts ++ more) =
      (files.follow place parts >>= fun inner => files.follow inner more) := by
  induction parts generalizing place with
  | nil => rfl
  | cons component rest ih =>
      rw [List.cons_append, follow, follow]
      cases files.step place component with
      | error e => rfl
      | ok next => exact ih next

theorem isSome_of_follow {parts : List String} (hplace : (files.node? place).isSome = true)
    (h : files.follow place parts = .ok next) : (files.node? next).isSome = true := by
  induction parts generalizing place with
  | nil =>
      cases h
      exact hplace
  | cons component rest ih =>
      obtain ⟨inner, hstep, hrest⟩ := exists_of_bind_eq_ok h
      exact ih (isSome_of_step hstep) hrest

/-- Something stands where a path starts, if the working directory is there. -/
theorem isSome_start (hhere : files.hasDirectory files.here = true) (path : String) :
    (files.node? (files.start path)).isSome = true := by
  rw [start]
  split
  · rfl
  · exact isSome_of_hasDirectory hhere

/-- A text is read where the path leads to one. -/
theorem read_eq_ok_iff {contents : String} :
    files.read path = .ok contents ↔
      ∃ place, files.locate path = .ok place ∧ files.contents? place = some contents := by
  cases hlocate : files.locate path with
  | error e => simp [read, hlocate, bind, Except.bind]
  | ok place =>
      simp only [read, hlocate, bind, Except.bind, Except.ok.injEq, exists_eq_left', contents?]
      cases files.node? place with
      | none => simp
      | some node => cases node <;> simp [Node.contents?]

/-! ## Changes that keep what is there -/

/-- What stays when texts are written at places and directories are made: directories, all that
is present, and the contents of every text that was not written. -/
structure Keeps (written : List (List String)) (files files' : Files) : Prop where
  here : files'.here = files.here
  directory : ∀ {place}, files.hasDirectory place = true → files'.hasDirectory place = true
  present : ∀ {place}, (files.node? place).isSome = true → (files'.node? place).isSome = true
  contents : ∀ {place}, place ∉ written → ∀ {contents}, files.contents? place = some contents →
    files'.contents? place = some contents

variable {written : List (List String)}

namespace Keeps

theorem refl (files : Files) : Keeps written files files :=
  ⟨rfl, id, id, fun _ _ h => h⟩

/-- Making directories before a change leaves no other text to be written. -/
theorem trans (h : Keeps [] files files') (h' : Keeps written files' files'') :
    Keeps written files files'' where
  here := h'.here.trans h.here
  directory hplace := h'.directory (h.directory hplace)
  present hplace := h'.present (h.present hplace)
  contents hplace _ hcontents := h'.contents hplace (h.contents List.not_mem_nil hcontents)

theorem step (h : Keeps written files files') (hstep : files.step place component = .ok next) :
    files'.step place component = .ok next := by
  cases stepsTo_of_eq hstep with
  | idle hplace hidle => exact step_idle (h.directory hplace) hidle
  | up hplace hup =>
      subst hup
      exact step_up (h.directory hplace)
  | enter hplace hplain hthere =>
      rw [step_plain (h.directory hplace) hplain, if_pos (h.present hthere)]

theorem follow (h : Keeps written files files') {parts : List String}
    (hfollow : files.follow place parts = .ok next) : files'.follow place parts = .ok next := by
  induction parts generalizing place with
  | nil => exact hfollow
  | cons component rest ih =>
      obtain ⟨inner, hstep, hrest⟩ := exists_of_bind_eq_ok hfollow
      rw [Files.follow, h.step hstep]
      exact ih hrest

theorem start (h : Keeps written files files') (path : String) :
    files'.start path = files.start path := by
  rw [Files.start, Files.start, h.here]

/-- A path leads where it led before. -/
theorem locate (h : Keeps written files files') (hlocate : files.locate path = .ok place) :
    files'.locate path = .ok place := by
  obtain ⟨_, husable, hfollow⟩ := exists_of_bind_eq_ok hlocate
  rw [Files.locate, husable, h.start path]
  exact h.follow hfollow

/-- What was not written is read as before. -/
theorem read (h : Keeps written files files') {contents : String}
    (hread : files.read path = .ok contents)
    (hother : ∀ place, files.locate path = .ok place → place ∉ written) :
    files'.read path = .ok contents := by
  obtain ⟨place, hlocate, hcontents⟩ := read_eq_ok_iff.1 hread
  exact read_eq_ok_iff.2 ⟨place, h.locate hlocate, h.contents (hother place hlocate) hcontents⟩

theorem hasHere (h : Keeps written files files') (hhere : files.hasDirectory files.here = true) :
    files'.hasDirectory files'.here = true := by
  rw [h.here]
  exact h.directory hhere

end Keeps

section Put

variable {node : Node}

/-- What is put in a directory stands there. -/
theorem node?_put_self (hplace : files.hasDirectory place = true) (name : String) (node : Node) :
    (files.put (place ++ [name]) node).node? (place ++ [name]) = some node := by
  obtain ⟨entries, hnode⟩ := hasDirectory_iff.1 hplace
  exact Node.at?_put_self hnode

/-- Putting something where no directory stands keeps all else. -/
theorem keeps_put (hplace : files.hasDirectory place = true)
    (hfree : files.hasDirectory (place ++ [name]) = false) (node : Node) :
    Keeps [place ++ [name]] files (files.put (place ++ [name]) node) := by
  have hfree' : ∀ old, files.root.at? (place ++ [name]) = some old → old.isDirectory = false := by
    intro old hold
    have hany : (files.root.at? (place ++ [name])).any Node.isDirectory = false := hfree
    rwa [hold] at hany
  have hstays : ∀ {other before}, other ≠ place ++ [name] → files.node? other = some before →
      ∃ after, (files.put (place ++ [name]) node).node? other = some after ∧
        before.Stays after := by
    intro other before hne hbefore
    exact Node.exists_at?_put hfree' hbefore hne
  refine ⟨rfl, ?_, ?_, ?_⟩
  · intro other hother
    obtain ⟨entries, hnode⟩ := hasDirectory_iff.1 hother
    have hne : other ≠ place ++ [name] := by
      rintro rfl
      rw [hother] at hfree
      cases hfree
    obtain ⟨after, hafter, hstay⟩ := hstays hne hnode
    rw [hasDirectory, hafter]
    rcases hstay with rfl | ⟨-, hdirectory⟩
    · rfl
    · exact hdirectory
  · intro other hother
    by_cases heq : other = place ++ [name]
    · rw [heq, node?_put_self hplace]
      rfl
    · obtain ⟨before, hbefore⟩ := Option.isSome_iff_exists.1 hother
      obtain ⟨after, hafter, -⟩ := hstays heq hbefore
      rw [hafter]
      rfl
  · intro other hother contents hcontents
    have hne : other ≠ place ++ [name] := by simpa using hother
    obtain ⟨before, hbefore, htext⟩ := Option.bind_eq_some_iff.1 hcontents
    obtain ⟨after, hafter, hstay⟩ := hstays hne hbefore
    rw [contents?, hafter]
    rcases hstay with rfl | ⟨hdirectory, -⟩
    · exact htext
    · obtain ⟨entries, rfl⟩ := Node.exists_entries hdirectory
      cases htext

/-- Where nothing stands, no text is lost. -/
theorem keeps_put_absent (hplace : files.hasDirectory place = true)
    (habsent : files.node? (place ++ [name]) = none) (node : Node) :
    Keeps [] files (files.put (place ++ [name]) node) := by
  have hfree : files.hasDirectory (place ++ [name]) = false := by
    rw [hasDirectory, habsent]
    rfl
  have hkeeps := keeps_put hplace hfree node
  refine ⟨hkeeps.here, hkeeps.directory, hkeeps.present, ?_⟩
  intro other _ contents hcontents
  by_cases heq : other = place ++ [name]
  · rw [contents?, heq, habsent] at hcontents
    cases hcontents
  · exact hkeeps.contents (by simpa using heq) hcontents

end Put

/-! ## Making directories -/

/-- Making directories keeps all that is there. -/
theorem keeps_makeFrom {parts : List String} {made : Bool}
    (hplace : (files.node? place).isSome = true) :
    Keeps [] files (files.makeFrom place made parts).1 := by
  induction parts generalizing files place made with
  | nil => exact Keeps.refl files
  | cons component rest ih =>
      rw [makeFrom]
      cases hstep : files.step place component with
      | ok next =>
          simp only
          split
          · next hnext => exact ih (isSome_of_hasDirectory hnext)
          · exact Keeps.refl files
      | error e =>
          cases e with
          | notFound =>
              cases stepsTo_of_eq hstep with
              | missing hmissing =>
                  rw [hmissing] at hplace
                  cases hplace
              | absent hdirectory _ habsent =>
                  have hput := keeps_put_absent hdirectory habsent (.directory [])
                  have hnext := node?_put_self hdirectory component (.directory [])
                  exact hput.trans (ih (by rw [hnext]; rfl))
          | _ => exact Keeps.refl files

/-- Directories that were made need not be made again, also after further changes. -/
theorem makeFrom_again {parts : List String} {made : Bool}
    (hplace : (files.node? place).isSome = true)
    (hmade : (files.makeFrom place made parts).2 = none)
    (hkeeps : Keeps written (files.makeFrom place made parts).1 files') (made' : Bool) :
    files'.makeFrom place made' parts = (files', none) := by
  induction parts generalizing files place made made' with
  | nil => rfl
  | cons component rest ih =>
      have hown : Keeps [] files (files.makeFrom place made (component :: rest)).1 :=
        keeps_makeFrom hplace
      have hall := hown.trans hkeeps
      rw [makeFrom] at hmade hkeeps ⊢
      cases hstep : files.step place component with
      | ok next =>
          simp only [hstep] at hmade hkeeps
          rw [hall.step hstep]
          simp only
          by_cases hnext : files.hasDirectory next = true
          · rw [if_pos hnext] at hmade hkeeps
            rw [if_pos (hall.directory hnext)]
            exact ih (isSome_of_hasDirectory hnext) hmade hkeeps made'
          · rw [if_neg hnext] at hmade
            cases hmade
      | error e =>
          simp only [hstep] at hmade hkeeps
          cases e with
          | notFound =>
              cases stepsTo_of_eq hstep with
              | missing hmissing =>
                  rw [hmissing] at hplace
                  cases hplace
              | absent hdirectory hplain habsent =>
                  have hnode := node?_put_self hdirectory component (.directory [])
                  have hpresent : ((files.put (place ++ [component]) (.directory [])).node?
                      (place ++ [component])).isSome = true := by
                    rw [hnode]
                    rfl
                  have hafter := (keeps_makeFrom hpresent).trans hkeeps
                  have hnext : files'.hasDirectory (place ++ [component]) = true :=
                    hafter.directory (hasDirectory_iff.2 ⟨[], hnode⟩)
                  rw [step_plain (hall.directory hdirectory) hplain,
                    if_pos (isSome_of_hasDirectory hnext)]
                  simp only
                  rw [if_pos hnext]
                  exact ih hpresent hmade hkeeps made'
          | _ => cases hmade

/-! ## Files that stay -/

/-- What stands at a place and is no directory. -/
def file? (files : Files) (place : List String) : Option Node :=
  files.root.file? place

theorem file?_makeFrom (place : List String) (made : Bool) (parts other : List String) :
    (files.makeFrom place made parts).1.file? other = files.file? other := by
  induction parts generalizing files place made with
  | nil => rfl
  | cons component rest ih =>
      rw [makeFrom]
      cases hstep : files.step place component with
      | ok next =>
          simp only
          split
          · exact ih next made
          · rfl
      | error e =>
          cases e with
          | notFound =>
              have habsent : files.node? (place ++ [component]) = none := by
                cases stepsTo_of_eq hstep with
                | missing hmissing =>
                    rw [node?_snoc, hmissing]
                    rfl
                | absent _ _ habsent => exact habsent
              exact (ih (place ++ [component]) true).trans (Node.file?_put_absent habsent other)
          | _ => rfl

/-- Making directories changes no file, whether they can be made or not. -/
theorem file?_makeDirectories (path : String) (place : List String) :
    (files.makeDirectories path).1.file? place = files.file? place := by
  rw [makeDirectories]
  split
  · rfl
  · cases Path.usable path with
    | error e => rfl
    | ok _ => exact file?_makeFrom _ _ _ _

section MakeDirectories

variable (hhere : files.hasDirectory files.here = true)
include hhere

theorem keeps_makeDirectories (path : String) :
    Keeps [] files (files.makeDirectories path).1 := by
  rw [makeDirectories]
  split
  · exact Keeps.refl files
  · cases Path.usable path with
    | error e => exact Keeps.refl files
    | ok _ => exact keeps_makeFrom (isSome_start hhere path)

theorem makeDirectories_again (hmade : (files.makeDirectories path).2 = none)
    (hkeeps : Keeps written (files.makeDirectories path).1 files') :
    files'.makeDirectories path = (files', none) := by
  have hstart := ((keeps_makeDirectories hhere path).trans hkeeps).start path
  rw [makeDirectories] at hmade hkeeps ⊢
  by_cases hempty : path.isEmpty = true
  · rw [if_pos hempty]
  · rw [if_neg hempty] at hmade hkeeps ⊢
    cases husable : Path.usable path with
    | error e =>
        rw [husable] at hmade
        cases hmade
    | ok _ =>
        rw [husable] at hmade hkeeps
        simp only at hmade hkeeps ⊢
        rw [hstart]
        exact makeFrom_again (isSome_start hhere path) hmade hkeeps false

end MakeDirectories

/-! ## Writing -/

/-- A path can be written: the way to its last component leads to a directory, and that component
is a name which no directory has there. -/
structure WritesAt (files : Files) (path : String) (place : List String) (name : String) :
    Prop where
  usable : Path.usable path = .ok ()
  way : ∃ before, Path.components path = before ++ [name] ∧
    files.follow (files.start path) before = .ok place
  directory : files.hasDirectory place = true
  plain : Plain name
  free : files.hasDirectory (place ++ [name]) = false

theorem writeIn_of_plain (hplace : files.hasDirectory place = true) (hplain : Plain name)
    (hfree : files.hasDirectory (place ++ [name]) = false) (contents : String) :
    files.writeIn place name contents = .ok (files.put (place ++ [name]) (.text contents)) := by
  rw [writeIn, step_plain hplace hplain]
  cases (files.node? (place ++ [name])).isSome with
  | true => simp [hfree]
  | false => rfl

/-- No name is written but a plain one, where no directory stands. -/
theorem exists_of_writeIn {contents : String} (hplace : (files.node? place).isSome = true)
    (hidle : Path.isIdle name = false) (hup : name ≠ "..")
    (h : files.writeIn place name contents = .ok files') :
    files.hasDirectory place = true ∧ Plain name ∧
      files.hasDirectory (place ++ [name]) = false := by
  rw [writeIn] at h
  cases hstep : files.step place name with
  | ok target =>
      simp only [hstep] at h
      cases stepsTo_of_eq hstep with
      | idle _ hother =>
          rw [hidle] at hother
          cases hother
      | up _ hother => exact absurd hother hup
      | enter hdirectory hplain _ =>
          refine ⟨hdirectory, hplain, ?_⟩
          by_cases htarget : files.hasDirectory (place ++ [name]) = true
          · rw [if_pos htarget] at h
            cases h
          · exact Bool.not_eq_true _ ▸ htarget
  | error e =>
      simp only [hstep] at h
      cases e with
      | notFound =>
          cases stepsTo_of_eq hstep with
          | missing hmissing =>
              rw [hmissing] at hplace
              cases hplace
          | absent hdirectory hplain habsent =>
              refine ⟨hdirectory, hplain, ?_⟩
              rw [hasDirectory, habsent]
              rfl
      | _ => cases h

theorem writeIn_refused {contents : String} {e : FileError}
    (h : files.writeIn place name contents = .error e) (other : String) :
    files.writeIn place name other = .error e := by
  rw [writeIn] at h ⊢
  cases hstep : files.step place name with
  | ok target =>
      simp only [hstep] at h ⊢
      by_cases htarget : files.hasDirectory target = true
      · rwa [if_pos htarget] at h ⊢
      · rw [if_neg htarget] at h
        cases h
  | error failure =>
      simp only [hstep] at h ⊢
      cases failure with
      | notFound => cases h
      | _ => exact h

/-- What cannot be written cannot be written with other contents either. -/
theorem write_refused {contents : String} {e : FileError}
    (h : files.write path contents = .error e) (other : String) :
    files.write path other = .error e := by
  -- The contents only matter in the last step, after all that can be refused.
  refine bind_eq_error_of h fun _ h => ?_
  dsimp only at h ⊢
  split at h
  · next hdots =>
      rw [if_pos hdots]
      exact h
  · next hname =>
      rw [if_neg hname]
      refine bind_eq_error_of h fun place h => ?_
      split at h
      · next hshort =>
          rw [if_pos hshort]
          exact h
      · next hlong =>
          rw [if_neg hlong]
          exact writeIn_refused h other

theorem dropSlashes_concat (before : List String) (h : Path.isIdle name = false) :
    Path.dropSlashes (before ++ [name]) = before ++ [name] := by
  have hname : ¬ (name == "") = true := by
    intro hempty
    rw [Path.isIdle, hempty] at h
    cases h
  exact List.rdropWhile_concat_neg _ before name hname

namespace WritesAt

/-- What can be written is written, whatever its contents. -/
theorem write_eq (h : WritesAt files path place name) (contents : String) :
    files.write path contents = .ok (files.put (place ++ [name]) (.text contents)) := by
  obtain ⟨before, hcomponents, hfollow⟩ := h.way
  have hdots : (Path.isIdle name || name == "..") = false := by
    simp [h.plain.notIdle, h.plain.notUp]
  simp only [write, h.usable, hcomponents, dropSlashes_concat before h.plain.notIdle,
    List.getLast?_concat, Option.getD_some, hdots, List.dropLast_concat, hfollow, Nat.lt_irrefl]
  exact writeIn_of_plain h.directory h.plain h.free contents

theorem keeps (h : WritesAt files path place name) (contents : String) :
    Keeps [place ++ [name]] files (files.put (place ++ [name]) (.text contents)) :=
  keeps_put h.directory h.free _

theorem contents?_put (h : WritesAt files path place name) (contents : String) :
    (files.put (place ++ [name]) (.text contents)).contents? (place ++ [name]) =
      some contents := by
  rw [contents?, node?_put_self h.directory]
  rfl

/-- Once written, the path leads to what was written. -/
theorem locate_put (h : WritesAt files path place name) (contents : String) :
    (files.put (place ++ [name]) (.text contents)).locate path = .ok (place ++ [name]) := by
  obtain ⟨before, hcomponents, hfollow⟩ := h.way
  have hkeeps := h.keeps contents
  have hthere := node?_put_self h.directory name (.text contents)
  have hstep : (files.put (place ++ [name]) (.text contents)).step place name =
      .ok (place ++ [name]) := by
    rw [step_plain (hkeeps.directory h.directory) h.plain, if_pos (by rw [hthere]; rfl)]
  rw [locate, h.usable, hkeeps.start path, hcomponents]
  change follow _ _ (before ++ [name]) = _
  rw [follow_append, hkeeps.follow hfollow]
  change follow _ place [name] = _
  rw [follow, hstep]
  rfl

/-- What is written can be read again. -/
theorem read_put (h : WritesAt files path place name) (contents : String) :
    (files.put (place ++ [name]) (.text contents)).read path = .ok contents :=
  read_eq_ok_iff.2 ⟨_, h.locate_put contents, h.contents?_put contents⟩

/-- A path can be written as often as wanted. -/
theorem again (h : WritesAt files path place name) (contents : String) :
    WritesAt (files.put (place ++ [name]) (.text contents)) path place name := by
  obtain ⟨before, hcomponents, hfollow⟩ := h.way
  have hkeeps := h.keeps contents
  refine ⟨h.usable, ⟨before, hcomponents, ?_⟩, hkeeps.directory h.directory, h.plain, ?_⟩
  · rw [hkeeps.start path]
    exact hkeeps.follow hfollow
  · rw [hasDirectory, node?_put_self h.directory]
    rfl

end WritesAt

/-- Nothing else can be written. -/
theorem exists_writesAt_of_write (hhere : files.hasDirectory files.here = true)
    {contents : String} (h : files.write path contents = .ok files') :
    ∃ place name, WritesAt files path place name := by
  obtain ⟨⟨⟩, husable, h⟩ := exists_of_bind_eq_ok h
  dsimp only at h
  generalize hparts : Path.dropSlashes (Path.components path) = parts at h
  by_cases hdots : (Path.isIdle (parts.getLast?.getD "") || parts.getLast?.getD "" == "..") = true
  · rw [if_pos hdots] at h
    obtain ⟨_, -, h⟩ := exists_of_bind_eq_ok h
    cases h
  · rw [if_neg hdots] at h
    obtain ⟨place, hfollow, h⟩ := exists_of_bind_eq_ok h
    by_cases hshort : parts.length < (Path.components path).length
    · rw [if_pos hshort] at h
      cases h
    · rw [if_neg hshort] at h
      have hsame : parts = Path.components path := by
        have hprefix : parts <+: Path.components path := hparts ▸ List.rdropWhile_prefix _ _
        exact hprefix.eq_of_length_le (Nat.not_lt.1 hshort)
      cases hlast : parts.getLast? with
      | none => simp [hlast, Path.isIdle] at hdots
      | some name =>
          rw [hlast, Option.getD_some] at h hdots
          obtain ⟨before, hbefore⟩ := List.getLast?_eq_some_iff.1 hlast
          rw [hbefore, List.dropLast_concat] at hfollow
          simp only [Bool.or_eq_true, beq_iff_eq, not_or, Bool.not_eq_true] at hdots
          have hthere := isSome_of_follow (isSome_start hhere path) hfollow
          obtain ⟨hdirectory, hplain, hfree⟩ := exists_of_writeIn hthere hdots.1 hdots.2 h
          exact ⟨place, name, husable, ⟨before, hsame ▸ hbefore, hfollow⟩, hdirectory, hplain, hfree⟩

end Files

end TypedJson
