import TypedJson.Proofs.Command.Batch

/-!
# Commands that fail

`Command.Hindered` lists what can keep a command from doing its work: a schema that cannot be
loaded, documents that cannot be loaded, a value that cannot be read or parsed, output that cannot
be saved. A command ends with an error exactly then.

A command that ends with an error leaves nothing behind: no file is made or changed, and nothing is
printed, unless it is a check that could only not save its report (`Command.run_failed`). All
outcomes with an error have one of two shapes. Either the command failed before it did anything, or
its last step was to save a text and this was refused. `Leaves` is what both have in common, and
each command is traced back to them.
-/

set_option autoImplicit false

namespace TypedJson.Command

variable {files : Files} {checker : Checker} {command : Command}

/-- Something keeps the command from doing its work. -/
inductive Hindered (files : Files) : Command → Prop where
  /-- The schema cannot be read, is no schema, or has an unknown version or encoding. -/
  | checkSchema {inputs : Inputs} {schema : String} {maxDepth : UInt64} {report : Option String} :
      Fails (loadCodec files ⟨maxDepth⟩ schema) →
      Hindered files (.check inputs schema maxDepth report)
  | checkInputs {inputs : Inputs} {schema : String} {maxDepth : UInt64} {report : Option String} :
      inputs.Hindered files → Hindered files (.check inputs schema maxDepth report)
  | checkReport {inputs : Inputs} {schema : String} {maxDepth : UInt64} {report : Option String} :
      ¬ Writable files report → Hindered files (.check inputs schema maxDepth report)
  | encodeSchema {schema input : String} {maxDepth : UInt64} {out : Option String} :
      Fails (loadCodec files ⟨maxDepth⟩ schema) →
      Hindered files (.encode schema input maxDepth out)
  | encodeUnreadable {schema input : String} {maxDepth : UInt64} {out : Option String}
      {e : FileError} : files.read input = .error e →
      Hindered files (.encode schema input maxDepth out)
  | encodeMalformed {schema input text : String} {maxDepth : UInt64} {out : Option String}
      {e : ReadError} : files.read input = .ok text → parse text = .error e →
      Hindered files (.encode schema input maxDepth out)
  /-- The value conforms, but its text cannot be saved. -/
  | encodeOut {schema input : String} {maxDepth : UInt64} {out : Option String} {v : Value} :
      Admits files ⟨maxDepth⟩ schema input v → ¬ Writable files out →
      Hindered files (.encode schema input maxDepth out)
  | validateInputs {inputs : Inputs} {maxDepth : UInt64} :
      inputs.Hindered files → Hindered files (.validateSchema inputs maxDepth)
  | bootstrapOut {subject : Subject} {out : Option String} :
      ¬ Writable files out → Hindered files (.bootstrap subject out)

/-- A check with a report, and an error of saving it. -/
def ReportUnsaved (command : Command) (e : CommandError) : Prop :=
  ∃ inputs schema maxDepth path, command = .check inputs schema maxDepth (some path) ∧
    OfSaving path e

/-- The outcome has an error exactly if something hinders the command, and then the files are as
they were, and only a check whose report is not saved has printed anything. -/
structure Leaves (files : Files) (command : Command) (outcome : Outcome) : Prop where
  error_iff : outcome.error.isSome = true ↔ Hindered files command
  files : ∀ e, outcome.error = some e → ∀ place, outcome.files.file? place = files.file? place
  stdout : ∀ e, outcome.error = some e → outcome.stdout = "" ∨ ReportUnsaved command e

namespace Leaves

/-- A command that failed before it did anything. -/
theorem of_failed (h : Hindered files command) (e : CommandError) :
    Leaves files command (.failed files e) where
  error_iff := iff_of_true rfl h
  files _ _ _ := rfl
  stdout _ _ := Or.inl rfl

/-- A command without an error. -/
theorem of_done {stdout stderr : String} {files' : Files} {conforms : Bool}
    (h : ¬ Hindered files command) :
    Leaves files command ⟨stdout, stderr, files', conforms, none⟩ where
  error_iff := iff_of_false Bool.false_ne_true h
  files _ herror := absurd herror (by simp)
  stdout _ herror := absurd herror (by simp)

/-- A command whose last step was to save a text, if it was asked for. -/
theorem of_saveTo {stdout stderr contents : String} {out : Option String} {conforms : Bool}
    (h : Hindered files command ↔ ¬ Writable files out)
    (hstdout : ∀ path e, out = some path → OfSaving path e →
      stdout = "" ∨ ReportUnsaved command e) :
    Leaves files command
      ⟨stdout, stderr, (saveTo files out contents).1, conforms, (saveTo files out contents).2⟩ where
  error_iff := by
    rw [h, ← saveTo_eq_none_iff contents, Option.isSome_iff_ne_none]
  files e herror := by
    obtain ⟨path, -, -, hkept⟩ := saveTo_refused herror
    exact hkept
  stdout e herror := by
    obtain ⟨path, hpath, hsaving, -⟩ := saveTo_refused herror
    exact hstdout path e hpath hsaving

end Leaves

/-! ## Command by command -/

theorem fails_verdicts_iff {inputs : Inputs} {schema : String} :
    Fails (verdicts files checker inputs schema) ↔
      Fails (loadCodec files checker schema) ∨ inputs.Hindered files := by
  rw [← Inputs.fails_load_iff]
  exact fails_both_iff

theorem leaves_check (now : String) (inputs : Inputs) (schema : String) (maxDepth : UInt64)
    (report : Option String) :
    Leaves files (.check inputs schema maxDepth report)
      (runCheck now files ⟨maxDepth⟩ inputs schema report) := by
  cases hverdicts : verdicts files ⟨maxDepth⟩ inputs schema with
  | error e =>
      have hrun : runCheck now files ⟨maxDepth⟩ inputs schema report = .failed files e := by
        unfold runCheck
        simp only [hverdicts]
      rw [hrun]
      apply Leaves.of_failed
      rcases fails_verdicts_iff.1 ⟨e, hverdicts⟩ with hcodec | hinputs
      · exact .checkSchema hcodec
      · exact .checkInputs hinputs
  | ok found =>
      have hfine : ¬ (Fails (loadCodec files ⟨maxDepth⟩ schema) ∨ inputs.Hindered files) := by
        rw [← fails_verdicts_iff, hverdicts]
        exact not_fails_ok found
      rw [runCheck_eq hverdicts]
      apply Leaves.of_saveTo
      · constructor
        · intro h
          cases h with
          | checkSchema hcodec => exact absurd (Or.inl hcodec) hfine
          | checkInputs hinputs => exact absurd (Or.inr hinputs) hfine
          | checkReport hreport => exact hreport
        · exact .checkReport
      · intro path e hpath hsaving
        exact Or.inr ⟨inputs, schema, maxDepth, path, by rw [hpath], hsaving⟩

theorem fails_loadValue_iff {schema input : String} :
    Fails (loadValue files checker schema input) ↔ Fails (loadCodec files checker schema) ∨
      Fails (files.read input) ∨ ∃ text, files.read input = .ok text ∧ Fails (parse text) := by
  rw [loadValue]
  cases loadCodec files checker schema with
  | error e => simp [bind, Except.bind]
  | ok codec =>
      cases files.read input with
      | error e => simp [bind, Except.bind]
      | ok text =>
          simp only [bind, Except.bind, not_fails_ok, false_or, Except.ok.injEq, exists_eq_left']
          cases parse text <;> simp

/-- A value that is refused is not admitted. -/
theorem not_admits_of_encode {codec : Codec} {schema input : String} {v w : Value}
    {failure : Failure} (hload : loadValue files checker schema input = .ok (codec, v))
    (hencode : codec.encode v = .error failure) : ¬ Admits files checker schema input w := by
  rintro ⟨codec', text', hcodec', hread', hdecode⟩
  obtain ⟨hparse', hcheck⟩ := Codec.decode_eq_ok_iff.1 hdecode
  have hload' := loadValue_eq_ok_iff.2 ⟨hcodec', text', hread', hparse'⟩
  -- The same value was loaded, and it passes the check in one case but not in the other.
  cases hload.symm.trans hload'
  rw [Codec.encode_eq_ok_iff.2 ⟨hcheck, rfl⟩] at hencode
  cases hencode

/-- Once the value is loaded, only the output can hinder its encoding. -/
theorem hindered_encode_iff {schema input : String} {maxDepth : UInt64} {out : Option String}
    {loaded : Codec × Value} (h : loadValue files ⟨maxDepth⟩ schema input = .ok loaded) :
    Hindered files (.encode schema input maxDepth out) ↔
      (∃ v, Admits files ⟨maxDepth⟩ schema input v) ∧ ¬ Writable files out := by
  have hfine : ¬ Fails (loadValue files ⟨maxDepth⟩ schema input) := by
    rw [h]
    exact not_fails_ok loaded
  rw [fails_loadValue_iff] at hfine
  constructor
  · intro hhindered
    cases hhindered with
    | encodeSchema hcodec => exact absurd (Or.inl hcodec) hfine
    | encodeUnreadable hread => exact absurd (Or.inr (Or.inl ⟨_, hread⟩)) hfine
    | encodeMalformed hread hparse => exact absurd (Or.inr (Or.inr ⟨_, hread, _, hparse⟩)) hfine
    | encodeOut hadmits hout => exact ⟨⟨_, hadmits⟩, hout⟩
  · rintro ⟨⟨v, hadmits⟩, hout⟩
    exact .encodeOut hadmits hout

/-- How encoding can end: without a value, with a value that is refused, or with its text. -/
theorem runEncode_cases (files : Files) (checker : Checker) (schema input : String)
    (out : Option String) :
    (∃ e, loadValue files checker schema input = .error e ∧
        runEncode files checker schema input out = .failed files e) ∨
      (∃ codec v failure, loadValue files checker schema input = .ok (codec, v) ∧
        codec.encode v = .error failure ∧ runEncode files checker schema input out =
          ⟨verdictText input (some failure.render), "", files, false, none⟩) ∨
      ∃ codec v text, loadValue files checker schema input = .ok (codec, v) ∧
        codec.encode v = .ok text ∧ runEncode files checker schema input out =
          emit files out text := by
  unfold runEncode
  cases loadValue files checker schema input with
  | error e => exact Or.inl ⟨e, rfl, rfl⟩
  | ok loaded =>
      obtain ⟨codec, v⟩ := loaded
      simp only
      cases hencode : codec.encode v with
      | error failure => exact Or.inr (Or.inl ⟨codec, v, failure, rfl, hencode, rfl⟩)
      | ok text => exact Or.inr (Or.inr ⟨codec, v, text, rfl, hencode, rfl⟩)

theorem leaves_encode (schema input : String) (maxDepth : UInt64) (out : Option String) :
    Leaves files (.encode schema input maxDepth out)
      (runEncode files ⟨maxDepth⟩ schema input out) := by
  rcases runEncode_cases files ⟨maxDepth⟩ schema input out with
    ⟨e, hload, hrun⟩ | ⟨codec, v, failure, hload, hencode, hrun⟩ |
    ⟨codec, v, text, hload, hencode, hrun⟩
  · rw [hrun]
    apply Leaves.of_failed
    rcases fails_loadValue_iff.1 ⟨e, hload⟩ with
      hcodec | ⟨failure, hread⟩ | ⟨text, hread, fault, hparse⟩
    · exact .encodeSchema hcodec
    · exact .encodeUnreadable hread
    · exact .encodeMalformed hread hparse
  · rw [hrun]
    apply Leaves.of_done
    rw [hindered_encode_iff hload]
    rintro ⟨⟨w, hadmits⟩, -⟩
    exact not_admits_of_encode hload hencode hadmits
  · obtain ⟨hcodec, contents, hread, hparse⟩ := loadValue_eq_ok_iff.1 hload
    have hcheck := (Codec.encode_eq_ok_iff.1 hencode).1
    have hadmits : Admits files ⟨maxDepth⟩ schema input v :=
      ⟨codec, contents, hcodec, hread, Codec.decode_eq_ok_iff.2 ⟨hparse, hcheck⟩⟩
    rw [hrun, emit_eq]
    apply Leaves.of_saveTo
    · rw [hindered_encode_iff hload]
      exact and_iff_right ⟨v, hadmits⟩
    · intro path _ hpath _
      rw [hpath]
      exact Or.inl rfl

theorem leaves_validateSchema (inputs : Inputs) (maxDepth : UInt64) :
    Leaves files (.validateSchema inputs maxDepth)
      (runValidateSchema files ⟨maxDepth⟩ inputs) := by
  unfold runValidateSchema
  cases hload : inputs.load files with
  | error e => exact .of_failed (.validateInputs (Inputs.fails_load_iff.1 ⟨e, hload⟩)) e
  | ok documents =>
      apply Leaves.of_done
      intro h
      cases h with
      | validateInputs hinputs =>
          have hfails := Inputs.fails_load_iff.2 hinputs
          rw [hload] at hfails
          exact not_fails_ok documents hfails

theorem leaves_bootstrap (subject : Subject) (out : Option String) (contents : String) :
    Leaves files (.bootstrap subject out) (emit files out contents) := by
  rw [emit_eq]
  apply Leaves.of_saveTo
  · constructor
    · intro h
      cases h with
      | bootstrapOut hout => exact hout
    · exact .bootstrapOut
  · intro path _ hpath _
    rw [hpath]
    exact Or.inl rfl

/-- Encoding that does not succeed changes no file, whether it fails or the value is refused. -/
theorem file?_runEncode {schema input : String} {out : Option String}
    (h : (runEncode files checker schema input out).exit ≠ 0) (place : List String) :
    (runEncode files checker schema input out).files.file? place = files.file? place := by
  rcases runEncode_cases files checker schema input out with
    ⟨e, -, hrun⟩ | ⟨codec, v, failure, -, -, hrun⟩ | ⟨codec, v, text, -, -, hrun⟩
  · rw [hrun]
    rfl
  · rw [hrun]
  · rw [hrun, emit_eq] at h ⊢
    cases hsaved : (saveTo files out text).2 with
    | none =>
        refine absurd (Outcome.exit_eq_zero_iff.2 ⟨hsaved, ?_⟩) h
        exact Option.isNone_iff_eq_none.2 hsaved
    | some e =>
        obtain ⟨path, -, -, hkept⟩ := saveTo_refused hsaved
        exact hkept place

/-! ## All commands -/

theorem leaves_run (now : String) (files : Files) (command : Command) :
    Leaves files command (run now files command) := by
  cases command with
  | check inputs schema maxDepth report => exact leaves_check now inputs schema maxDepth report
  | encode schema input maxDepth out => exact leaves_encode schema input maxDepth out
  | validateSchema inputs maxDepth => exact leaves_validateSchema inputs maxDepth
  | bootstrap subject out => exact leaves_bootstrap subject out _

/-- A command that fails leaves nothing behind. A command ends with an error exactly if something
hinders it, be it the last of many inputs. Then every file stands where it stood with the same
contents, there is no other, and nothing is printed unless the error is that of a check which could
not save its report. Moreover encoding changes no file unless it succeeds. -/
theorem run_failed (now : String) (files : Files) (command : Command) :
    let outcome := run now files command
    (outcome.error.isSome = true ↔ Hindered files command) ∧
      (∀ e, outcome.error = some e → outcome.exit = 1 ∧
        (∀ place, outcome.files.file? place = files.file? place) ∧
        (outcome.stdout = "" ∨ ReportUnsaved command e)) ∧
      ∀ schema input maxDepth out, command = .encode schema input maxDepth out →
        outcome.exit ≠ 0 → ∀ place, outcome.files.file? place = files.file? place := by
  intro outcome
  have hleaves : Leaves files command outcome := leaves_run now files command
  refine ⟨hleaves.error_iff, ?_, ?_⟩
  · intro e herror
    refine ⟨?_, hleaves.files e herror, hleaves.stdout e herror⟩
    rw [Outcome.exit, herror]
    rfl
  · rintro schema input maxDepth out rfl hexit
    exact file?_runEncode hexit

/-- The last of two documents has nothing where the pointer leads; a report cannot be written though
its directory can be made; a value is refused although its text could be saved. -/
theorem run_failed_late :
    let schema := "\x7b\"t\":\x7b\"kind\":\"type-basic\",\"sub\":\"bool\"\x7d,\"version\":\"0\"," ++
      "\"encoding\":\"json\",\"meta\":\x7b\x7d\x7d"
    let files := (((Files.empty ["work"]).put ["work", "s"] (.text schema)).put
      ["work", "lines"] (.text "\x7b\"x\":1\x7d\n\x7b\x7d")).put ["work", "one"] (.text "1")
    let validate : Command := .validateSchema ⟨true, some "/x", ["lines"]⟩ 64
    let check : Command := .check ⟨false, none, ["one"]⟩ "s" 64 (some "new/..")
    let encode : Command := .encode "s" "one" 64 (some "out")
    (run "" files validate).error = some (.nothingSelected "/x" "lines:2") ∧
      Hindered files validate ∧ (run "" files validate).stdout = "" ∧
      (run "" files check).error = some (.outputNotWritten "new/.." .isDirectory) ∧
      (run "" files check).stdout = "fail one\n    cannot coerce 1 into bool\n" ∧
      (∀ place, (run "" files check).files.file? place = files.file? place) ∧
      Writable files (some "out") ∧ (run "" files encode).exit = 1 ∧
      (∀ place, (run "" files encode).files.file? place = files.file? place) := by
  intro schema files validate check encode
  have hvalidate : (run "" files validate).error = some (.nothingSelected "/x" "lines:2") := by
    decide +kernel +zetaReduce
  have hcheck : (run "" files check).error = some (.outputNotWritten "new/.." .isDirectory) ∧
      (run "" files check).stdout = "fail one\n    cannot coerce 1 into bool\n" := by
    decide +kernel +zetaReduce
  have hencode : (run "" files encode).exit = 1 := by decide +kernel +zetaReduce
  have hout : Writable files (some "out") := by
    rintro path ⟨⟩
    exact ⟨"", by decide +kernel +zetaReduce⟩
  obtain ⟨hhindered, hsilent, -⟩ := run_failed "" files validate
  obtain ⟨-, hunsaved, -⟩ := run_failed "" files check
  obtain ⟨-, -, hrefused⟩ := run_failed "" files encode
  refine ⟨hvalidate, hhindered.1 (by rw [hvalidate]; rfl), ?_, hcheck.1, hcheck.2,
    (hunsaved _ hcheck.1).2.1, hout, hencode, ?_⟩
  · rcases (hsilent _ hvalidate).2.2 with hempty | ⟨_, _, _, _, hother, -⟩
    · exact hempty
    · exact Command.noConfusion hother
  · exact hrefused "s" "one" 64 (some "out") rfl (by rw [hencode]; decide)

end TypedJson.Command
