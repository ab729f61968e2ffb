import TypedJson.Command.Documents

/-!
# Running a command

`Command.run` takes the files before a command to its outcome: what it prints, the
files after it, and how it ends. A command that cannot do its work ends with an
error; one whose documents do not conform only exits with another code.
-/

set_option autoImplicit false

namespace TypedJson

/-- What a command leaves: the two printed texts, the files, whether all documents
conform, and the error of a command that could not do its work. -/
structure Outcome where
  stdout : String
  stderr : String
  files : Files
  conforms : Bool
  error : Option CommandError

namespace Outcome

/-- The exit code: nonzero after an error or when a document does not conform. -/
def exit (outcome : Outcome) : Nat :=
  if outcome.error.isNone && outcome.conforms then 0 else 1

/-- A command that failed before it printed anything. -/
def failed (files : Files) (e : CommandError) : Outcome :=
  ⟨"", "", files, false, some e⟩

end Outcome

namespace Command

/-- A text with a line feed at its end. -/
def line (s : String) : String := s ++ "\n"

/-- Every line of a text, four spaces further right. -/
def indented (s : String) : String :=
  String.join ((Text.lines s).map fun part => line ("    " ++ part))

/-- The printed verdict on a document; `failure` is what is wrong with it. -/
def verdictText (source : String) (failure : Option String) : String :=
  match failure with
  | none => line ("ok " ++ source)
  | some rendered => line ("fail " ++ source) ++ indented rendered

/-- The schema at a path. -/
def loadSchema (files : Files) (checker : Checker) (path : String) : Except CommandError Schema :=
  match files.read path with
  | .error e => .error (.schemaUnreadable path e)
  | .ok contents =>
      match Schema.read checker contents with
      | .ok schema => .ok schema
      | .error e => .error (.schemaInvalid path e)

/-- The codec of the schema at a path. -/
def loadCodec (files : Files) (checker : Checker) (path : String) : Except CommandError Codec := do
  let schema ← loadSchema files checker path
  match Codec.ofSchema schema checker with
  | .ok codec => .ok codec
  | .error e => .error (.schemaUnknown e)

/-- Writes a text to a path and makes the directory that is to hold it. Directories
that were made stay when the text cannot be written. -/
def save (files : Files) (path contents : String) : Files × Option CommandError :=
  let parent := (Path.parent? path).getD ""
  match files.makeDirectories parent with
  | (files, some e) => (files, some (.directoryNotMade parent e))
  | (files, none) =>
      match files.write path contents with
      | .ok files => (files, none)
      | .error e => (files, some (.outputNotWritten path e))

/-- Prints a text, or writes it to a path. -/
def emit (files : Files) (out : Option String) (contents : String) : Outcome :=
  match out with
  | none => ⟨line contents, "", files, true, none⟩
  | some path =>
      match save files path contents with
      | (files, none) => ⟨"", "", files, true, none⟩
      | (files, some e) => .failed files e

/-- The verdict on a document. -/
structure Verdict where
  source : String
  error : Option DecodeError
  deriving DecidableEq

namespace Verdict

/-- A document that conforms. -/
def ok (verdict : Verdict) : Bool := verdict.error.isNone

/-- The verdict of a codec. -/
def ofDocument (codec : Codec) (document : Document) : Verdict :=
  match codec.decode document.text with
  | .ok _ => ⟨document.source, none⟩
  | .error e => ⟨document.source, some e⟩

/-- The printed form of a verdict. -/
def text (verdict : Verdict) : String :=
  verdictText verdict.source (verdict.error.map DecodeError.render)

/-- A verdict as an entry of a report. -/
def toValue (verdict : Verdict) : Value :=
  let error :=
    match verdict.error with
    | some e => [("error", e.toValue)]
    | none => []
  .object ([("input", .string verdict.source), ("ok", .bool verdict.ok)] ++ error)

/-- The number of documents that do not conform. -/
def failures (verdicts : List Verdict) : Nat :=
  verdicts.countP fun verdict => !verdict.ok

/-- The last line of a check. -/
def summary (verdicts : List Verdict) : String :=
  line (toString verdicts.length ++ " checked, " ++ toString (failures verdicts) ++ " failed")

/-- The report on verdicts. -/
def report (now schema : String) (verdicts : List Verdict) : Value :=
  .object [("generated_at", .string now), ("schema", .string schema),
    ("checked", .number (.ofNat verdicts.length)),
    ("failed", .number (.ofNat (failures verdicts))),
    ("results", .array (verdicts.map toValue))]

end Verdict

/-- The verdicts on all documents. The schema is loaded before the documents. -/
def verdicts (files : Files) (checker : Checker) (inputs : Inputs) (schema : String) :
    Except CommandError (List Verdict) := do
  let codec ← loadCodec files checker schema
  let documents ← inputs.load files
  .ok (documents.map (Verdict.ofDocument codec))

/-- Prints the verdicts, writes the report, then prints the summary. -/
def runCheck (now : String) (files : Files) (checker : Checker) (inputs : Inputs)
    (schema : String) (report : Option String) : Outcome :=
  match verdicts files checker inputs schema with
  | .error e => .failed files e
  | .ok verdicts =>
      let stdout := String.join (verdicts.map Verdict.text)
      let conforms := verdicts.all Verdict.ok
      match report with
      | none => ⟨stdout, Verdict.summary verdicts, files, conforms, none⟩
      | some path =>
          match save files path (Verdict.report now schema verdicts).pretty with
          | (files, none) => ⟨stdout, Verdict.summary verdicts, files, conforms, none⟩
          | (files, some e) => ⟨stdout, "", files, conforms, some e⟩

/-- The codec of a schema and the value to encode. -/
def loadValue (files : Files) (checker : Checker) (schema input : String) :
    Except CommandError (Codec × Value) := do
  let codec ← loadCodec files checker schema
  match files.read input with
  | .error e => .error (.valueUnreadable input e)
  | .ok contents =>
      match parse contents with
      | .error e => .error (.valueMalformed input e)
      | .ok v => .ok (codec, v)

/-- Prints or writes the text of a value that conforms, and prints why another one
does not. -/
def runEncode (files : Files) (checker : Checker) (schema input : String)
    (out : Option String) : Outcome :=
  match loadValue files checker schema input with
  | .error e => .failed files e
  | .ok (codec, v) =>
      match codec.encode v with
      | .ok written => emit files out written
      | .error failure => ⟨verdictText input (some failure.render), "", files, false, none⟩

/-- What is wrong with a schema document. -/
def schemaFault (checker : Checker) (document : Document) : Option String :=
  match Schema.read checker document.text with
  | .ok _ => none
  | .error (.decode e) => some e.render
  | .error (.shape e) => some (line (SchemaError.shape e).message)

/-- Prints a verdict on every schema document. -/
def runValidateSchema (files : Files) (checker : Checker) (inputs : Inputs) : Outcome :=
  match inputs.load files with
  | .error e => .failed files e
  | .ok documents =>
      let text (document : Document) : String :=
        verdictText document.source (schemaFault checker document)
      ⟨String.join (documents.map text), "", files,
        documents.all fun document => (schemaFault checker document).isNone, none⟩

/-- The term that describes a subject, as a value. -/
def describing : Subject → Value
  | .schema => (Bootstrap.schemaSchema (.object [])).toValue
  | .type => Bootstrap.typeType.toValue
  | .data => Bootstrap.dataType.toValue

/-- Runs a command; `now` is the time that a report shows. -/
def run (now : String) (files : Files) : Command → Outcome
  | .check inputs schema maxDepth report => runCheck now files ⟨maxDepth⟩ inputs schema report
  | .encode schema input maxDepth out => runEncode files ⟨maxDepth⟩ schema input out
  | .validateSchema inputs maxDepth => runValidateSchema files ⟨maxDepth⟩ inputs
  | .bootstrap subject out => emit files out (describing subject).pretty

end Command

end TypedJson
