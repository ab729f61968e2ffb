import TypedJson.Proofs.Codec
import TypedJson.Proofs.Command.Output

/-!
# Encoding and checking agree

`Command.Admits` says that the schema at one path lets the document at another path pass, as a
certain value. Checking that document alone succeeds exactly then (`exit_runCheck_eq_zero_iff`).
Encoding it succeeds exactly then too, if the text can be saved (`exit_runEncode_eq_zero_iff`), and
saves the compact text of the value (`Admits.runEncode_eq`). As that text is read back as the same
value, the schema admits what was saved (`Admits.of_save`).
-/

set_option autoImplicit false

namespace TypedJson

theorem Outcome.exit_eq_zero_iff {outcome : Outcome} :
    outcome.exit = 0 ↔ outcome.error = none ∧ outcome.conforms = true := by
  rw [Outcome.exit]
  cases outcome.error <;> cases outcome.conforms <;> simp

/-- A path that is no pattern stands for the one document at it. -/
theorem Inputs.load_eq_ok_iff {files : Files} {input : String} {documents : List Document}
    (h : isPattern input = false) :
    (⟨false, none, [input]⟩ : Inputs).load files = .ok documents ↔
      ∃ text, files.read input = .ok text ∧ documents = [⟨input, text⟩] := by
  have hpaths : resolveAll files [input] = .ok [input] := by
    simp [resolveAll, resolve, h, bind, Except.bind]
  simp only [load, hpaths, loadFiles, loadFile, bind, Except.bind]
  cases files.read input with
  | error e => simp
  | ok text => simp [split, selectAll, select, bind, Except.bind, eq_comm]

namespace Command

variable {files : Files} {checker : Checker} {schema input out : String} {v : Value}

/-- The schema at a path lets the document at another path pass as a value. -/
def Admits (files : Files) (checker : Checker) (schema input : String) (v : Value) : Prop :=
  ∃ codec text, loadCodec files checker schema = .ok codec ∧ files.read input = .ok text ∧
    codec.decode text = .ok ⟨v⟩

/-! ## Checking -/

theorem Verdict.ok_ofDocument_iff {codec : Codec} {document : Document} :
    (ofDocument codec document).ok = true ↔ ∃ v, codec.decode document.text = .ok ⟨v⟩ := by
  unfold ofDocument
  cases codec.decode document.text with
  | error e => simp [ok]
  | ok decoded => simpa [ok] using ⟨decoded.term, rfl⟩

section Checking

variable (h : Inputs.isPattern input = false)
include h

theorem verdicts_eq_ok_iff {found : List Verdict} :
    verdicts files checker ⟨false, none, [input]⟩ schema = .ok found ↔
      ∃ codec text, loadCodec files checker schema = .ok codec ∧ files.read input = .ok text ∧
        found = [Verdict.ofDocument codec ⟨input, text⟩] := by
  constructor
  · intro hfound
    obtain ⟨codec, hcodec, hrest⟩ := exists_of_bind_eq_ok hfound
    obtain ⟨documents, hload, hlast⟩ := exists_of_bind_eq_ok hrest
    obtain ⟨text, hread, rfl⟩ := (Inputs.load_eq_ok_iff h).1 hload
    cases hlast
    exact ⟨codec, text, hcodec, hread, rfl⟩
  · rintro ⟨codec, text, hcodec, hread, rfl⟩
    have hload := (Inputs.load_eq_ok_iff h).2 ⟨text, hread, rfl⟩
    simp only [verdicts, hcodec, hload, bind, Except.bind, List.map_cons, List.map_nil]

/-- A check of one document succeeds exactly when the schema admits it. -/
theorem exit_runCheck_eq_zero_iff (now : String) :
    (runCheck now files checker ⟨false, none, [input]⟩ schema none).exit = 0 ↔
      ∃ v, Admits files checker schema input v := by
  unfold runCheck
  constructor
  · intro hexit
    cases hfound : verdicts files checker ⟨false, none, [input]⟩ schema with
    | error e =>
        rw [hfound] at hexit
        cases hexit
    | ok found =>
        obtain ⟨codec, text, hcodec, hread, rfl⟩ := (verdicts_eq_ok_iff h).1 hfound
        rw [hfound] at hexit
        have hok := (Outcome.exit_eq_zero_iff.1 hexit).2
        simp only [List.all_cons, List.all_nil, Bool.and_true] at hok
        obtain ⟨v, hdecode⟩ := Verdict.ok_ofDocument_iff.1 hok
        exact ⟨v, codec, text, hcodec, hread, hdecode⟩
  · rintro ⟨v, codec, text, hcodec, hread, hdecode⟩
    have hok : (Verdict.ofDocument codec ⟨input, text⟩).ok = true :=
      Verdict.ok_ofDocument_iff.2 ⟨v, hdecode⟩
    rw [(verdicts_eq_ok_iff h).2 ⟨codec, text, hcodec, hread, rfl⟩]
    refine Outcome.exit_eq_zero_iff.2 ⟨rfl, ?_⟩
    simp only [List.all_cons, List.all_nil, Bool.and_true]
    exact hok

end Checking

/-! ## Encoding -/

theorem loadValue_eq_ok_iff {codec : Codec} :
    loadValue files checker schema input = .ok (codec, v) ↔
      loadCodec files checker schema = .ok codec ∧
        ∃ text, files.read input = .ok text ∧ parse text = .ok v := by
  rw [loadValue]
  cases loadCodec files checker schema with
  | error e => simp [bind, Except.bind]
  | ok loaded =>
      cases files.read input with
      | error e => simp [bind, Except.bind]
      | ok text =>
          simp only [bind, Except.bind, Except.ok.injEq, exists_eq_left']
          cases parse text <;> simp

/-- What is admitted is encoded as its compact text. -/
theorem Admits.runEncode_eq (h : Admits files checker schema input v) (out : Option String) :
    runEncode files checker schema input out = emit files out v.compact := by
  obtain ⟨codec, text, hcodec, hread, hdecode⟩ := h
  obtain ⟨hparse, hcheck⟩ := Codec.decode_eq_ok_iff.1 hdecode
  unfold runEncode
  rw [loadValue_eq_ok_iff.2 ⟨hcodec, text, hread, hparse⟩]
  simp only
  rw [Codec.encode_eq_ok_iff.2 ⟨hcheck, rfl⟩]

/-- Nothing else is encoded. -/
theorem exists_admits_of_exit_runEncode {out : Option String}
    (h : (runEncode files checker schema input out).exit = 0) :
    ∃ v, Admits files checker schema input v := by
  unfold runEncode at h
  cases hload : loadValue files checker schema input with
  | error e =>
      rw [hload] at h
      cases h
  | ok loaded =>
      obtain ⟨codec, v⟩ := loaded
      obtain ⟨hcodec, text, hread, hparse⟩ := loadValue_eq_ok_iff.1 hload
      simp only [hload] at h
      cases hencode : codec.encode v with
      | error failure =>
          rw [hencode] at h
          cases h
      | ok written =>
          have hcheck := (Codec.encode_eq_ok_iff.1 hencode).1
          exact ⟨v, codec, text, hcodec, hread, Codec.decode_eq_ok_iff.2 ⟨hparse, hcheck⟩⟩

section Saving

variable (hhere : files.hasDirectory files.here = true) (hsave : CanSave files out)
include hhere hsave

theorem CanSave.emit_eq (contents : String) :
    emit files (some out) contents = ⟨"", "", (save files out contents).1, true, none⟩ := by
  obtain ⟨made, place, name, hsaves⟩ := hsave.exists_savesAt hhere
  unfold emit
  simp only [hsaves.save_eq]

/-- Encoding to a path that can be written succeeds exactly when the schema admits the
document. -/
theorem exit_runEncode_eq_zero_iff :
    (runEncode files checker schema input (some out)).exit = 0 ↔
      ∃ v, Admits files checker schema input v := by
  constructor
  · exact exists_admits_of_exit_runEncode
  · rintro ⟨v, hadmits⟩
    rw [hadmits.runEncode_eq, hsave.emit_eq hhere]
    rfl

/-- The schema admits what was saved, unless that took the place of the schema. -/
theorem Admits.of_save (h : Admits files checker schema input v)
    (hother : ¬ Replaces files out schema) :
    Admits (save files out v.compact).1 checker schema out v := by
  obtain ⟨codec, text, hcodec, -, hdecode⟩ := h
  obtain ⟨hparse, hcheck⟩ := Codec.decode_eq_ok_iff.1 hdecode
  refine ⟨codec, v.compact, ?_, hsave.read_save hhere v.compact, ?_⟩
  · -- The codec depends on the files only through the text of the schema.
    cases hread : files.read schema with
    | error e =>
        simp only [loadCodec, loadSchema, hread] at hcodec
        cases hcodec
    | ok contents =>
        rw [← hcodec, loadCodec, loadCodec, loadSchema, loadSchema, hread,
          hsave.read_other hhere hother hread]
  · exact Codec.decode_eq_ok_iff.2 ⟨parse_compact (readable_of_parse hparse), hcheck⟩

end Saving

/-- Encoding and checking agree, and encoding twice is encoding once. The working directory is
there, and the output can be saved and does not take the place of the schema. Then a document is
encoded exactly when it passes the check. What was saved passes the check too, and wherever it is
encoded to, the same text is saved. -/
theorem encode_exit_iff_check_exit (now schema input out : String) (maxDepth : UInt64)
    (hhere : files.hasDirectory files.here = true) (hinput : Inputs.isPattern input = false)
    (hout : Inputs.isPattern out = false) (hsave : CanSave files out)
    (hother : ¬ Replaces files out schema) :
    let encoded := run now files (.encode schema input maxDepth (some out))
    (encoded.exit = 0 ↔
        (run now files (.check ⟨false, none, [input]⟩ schema maxDepth none)).exit = 0) ∧
      (encoded.exit = 0 →
        (run now encoded.files (.check ⟨false, none, [out]⟩ schema maxDepth none)).exit = 0 ∧
        CanSave encoded.files out ∧
        ∃ text, encoded.files.read out = .ok text ∧
          ∀ target, CanSave encoded.files target →
            let again := run now encoded.files (.encode schema out maxDepth (some target))
            again.exit = 0 ∧ again.files.read target = .ok text) := by
  intro encoded
  -- Both commands succeed exactly when the schema admits the document.
  have hiff : encoded.exit = 0 ↔ ∃ v, Admits files ⟨maxDepth⟩ schema input v :=
    exit_runEncode_eq_zero_iff hhere hsave
  refine ⟨hiff.trans (exit_runCheck_eq_zero_iff hinput now).symm, fun hexit => ?_⟩
  obtain ⟨v, hadmits⟩ := hiff.1 hexit
  have hencoded : encoded = ⟨"", "", (save files out v.compact).1, true, none⟩ :=
    (hadmits.runEncode_eq (some out)).trans (hsave.emit_eq hhere v.compact)
  rw [hencoded]
  -- What was saved is admitted as the same value, so it has the same compact text.
  have hadmits' := hadmits.of_save hhere hsave hother
  have hhere' := hsave.hasHere hhere v.compact
  refine ⟨(exit_runCheck_eq_zero_iff hout now).2 ⟨v, hadmits'⟩, hsave.again hhere v.compact,
    v.compact, hsave.read_save hhere v.compact, ?_⟩
  intro target htarget again
  have hagain : again =
      ⟨"", "", (save (save files out v.compact).1 target v.compact).1, true, none⟩ :=
    (hadmits'.runEncode_eq (some target)).trans (htarget.emit_eq hhere' v.compact)
  rw [hagain]
  exact ⟨rfl, htarget.read_save hhere' v.compact⟩

/-- A list of floats, loosely written, is encoded to a path in directories that have yet to be
made, and then again in the same place. -/
theorem encode_exit_iff_check_exit_floats :
    let schema := "\x7b\"t\":\x7b\"kind\":\"type-list\",\"value\":\x7b\"kind\":\"type-basic\"," ++
      "\"sub\":\"float\"\x7d\x7d,\"version\":\"0\",\"encoding\":\"json\",\"meta\":\x7b\x7d\x7d"
    let files := ((Files.empty ["work"]).put ["work", "s.json"] (.text schema)).put
      ["work", "in.json"] (.text " [1.50, 2e2,\n-0.0] ")
    let out := "new/inner/../o.json"
    let encode (files : Files) (input : String) :=
      run "" files (.encode "s.json" input 64 (some out))
    let encoded := encode files "in.json"
    files.hasDirectory files.here = true ∧ CanSave files out ∧ ¬ Replaces files out "s.json" ∧
      encoded.exit = 0 ∧ encoded.files.read out = .ok "[1.5,200.0,-0.0]" ∧
      (run "" encoded.files (.check ⟨false, none, [out]⟩ "s.json" 64 none)).exit = 0 ∧
      (encode encoded.files out).exit = 0 ∧
      (encode encoded.files out).files.read out = .ok "[1.5,200.0,-0.0]" := by
  intro schema files out encode encoded
  have hhere : files.hasDirectory files.here = true := by decide +kernel +zetaReduce
  have hsave : CanSave files out := ⟨"", by decide +kernel +zetaReduce⟩
  have hother : ¬ Replaces files out "s.json" := by
    rintro ⟨place, hschema, hplace⟩
    have hfound : files.locate "s.json" = .ok ["work", "s.json"] := by decide +kernel +zetaReduce
    have hsaved : (save files out "").1.locate out = .ok ["work", "new", "o.json"] := by
      decide +kernel +zetaReduce
    have hsame := (hfound.symm.trans hschema).trans (hplace.symm.trans hsaved)
    exact absurd (Except.ok.inj hsame) (by decide)
  obtain ⟨hexit, hread⟩ : encoded.exit = 0 ∧
      encoded.files.read out = .ok "[1.5,200.0,-0.0]" := by
    decide +kernel +zetaReduce
  obtain ⟨-, hrest⟩ := encode_exit_iff_check_exit "" "s.json" "in.json" out 64 hhere
    (by decide) (by decide +kernel +zetaReduce) hsave hother
  obtain ⟨hcheck, hagain, text, htext, hencode⟩ := hrest hexit
  cases hread.symm.trans htext
  obtain ⟨hexit', hread'⟩ := hencode out hagain
  exact ⟨hhere, hsave, hother, hexit, hread, hcheck, hexit', hread'⟩

end Command

end TypedJson
