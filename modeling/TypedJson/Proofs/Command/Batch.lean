import TypedJson.Proofs.Command.Encode
import TypedJson.Proofs.Command.Loading

/-!
# Checking documents in batches

A check says the same of its documents in four ways: in the lines that it prints, in the report, in
the counts of the summary and in the exit code. A `Batch` is what it says: an entry for each
document and the number of entries that are not ok. `Command.Reports` ties all four to it, and every
check whose documents can be loaded reports such a batch (`Command.reports_check`).

Batches are put together part by part, and so are the documents of two lists of inputs. Hence a
check of both lists reports what the two checks report, one after the other
(`Command.check_append`).
-/

set_option autoImplicit false

namespace TypedJson

/-- What an object has under a name. -/
def Value.member? (name : String) : Value → Option Value
  | .object members => Entries.find? name members
  | _ => none

/-- Why a text is not decoded. -/
def Codec.fault? (codec : Codec) (text : String) : Option DecodeError :=
  match codec.decode text with
  | .ok _ => none
  | .error e => some e

namespace Command

variable {files : Files} {codec : Codec} {inputs : Inputs} {documents : List Document}

/-! ## Verdicts and entries -/

/-- An entry of a report shows where a document is from, whether it is decoded, and if not, why. -/
structure Shows (codec : Codec) (document : Document) (entry : Value) : Prop where
  input : entry.member? "input" = some (.string document.source)
  ok : entry.member? "ok" = some (.bool (codec.fault? document.text).isNone)
  error : entry.member? "error" = (codec.fault? document.text).map DecodeError.toValue

/-- An entry says that a document is not ok. -/
def isFailed (entry : Value) : Bool :=
  decide (entry.member? "ok" = some (.bool false))

/-- What a check says of documents: the entries of the report and the two counts. -/
structure Batch where
  documents : List Document
  results : List Value
  checked : Nat
  failed : Nat

namespace Batch

/-- One batch after another: entries in order, counts added. -/
instance : Append Batch :=
  ⟨fun first second => ⟨first.documents ++ second.documents, first.results ++ second.results,
    first.checked + second.checked, first.failed + second.failed⟩⟩

/-- The batch is right about its documents: there is an entry for each, in order, the counts are
those of the entries, and an entry has an error exactly when it is not ok. -/
structure Sound (codec : Codec) (batch : Batch) : Prop where
  entries : List.Forall₂ (Shows codec) batch.documents batch.results
  checked : batch.checked = batch.documents.length
  failed : batch.failed = batch.results.countP isFailed
  errors : ∀ entry ∈ batch.results,
    (entry.member? "error").isSome = true ↔ isFailed entry = true

end Batch

/-- The outcome of a check reports a batch: a verdict is printed for each document, the summary and
the report show the counts, the report has the entries, and the check succeeds when none is failed.
The report is asked for by its path, if at all; if it cannot be written, there is no summary. -/
structure Reports (files : Files) (codec : Codec) (report : Option String) (batch : Batch)
    (outcome : Outcome) : Prop where
  sound : batch.Sound codec
  stdout : outcome.stdout = String.join (batch.documents.map fun document =>
    verdictText document.source ((codec.fault? document.text).map DecodeError.render))
  stderr : Writable files report → outcome.stderr =
    line (toString batch.checked ++ " checked, " ++ toString batch.failed ++ " failed")
  written : ∀ path, report = some path → CanSave files path →
    files.hasDirectory files.here = true →
      ∃ value : Value, outcome.files.read path = .ok value.pretty ∧
        value.member? "checked" = some (.number (.ofNat batch.checked)) ∧
        value.member? "failed" = some (.number (.ofNat batch.failed)) ∧
        value.member? "results" = some (.array batch.results)
  exit : outcome.exit = 0 ↔ Writable files report ∧ batch.failed = 0

/-! ## One check -/

/-- What a check leaves once it has its verdicts. -/
theorem runCheck_eq {checker : Checker} {schema : String} {found : List Verdict}
    (h : verdicts files checker inputs schema = .ok found) (now : String)
    (report : Option String) :
    let saved := saveTo files report (Verdict.report now schema found).pretty
    runCheck now files checker inputs schema report =
      ⟨String.join (found.map Verdict.text), saved.2.elim (Verdict.summary found) fun _ => "",
        saved.1, found.all Verdict.ok, saved.2⟩ := by
  intro saved
  unfold runCheck
  simp only [h]
  cases report with
  | none => rfl
  | some path =>
      simp only [saved, saveTo_some]
      generalize save files path (Verdict.report now schema found).pretty = result
      obtain ⟨files', failure⟩ := result
      cases failure <;> rfl

end Command

end TypedJson
