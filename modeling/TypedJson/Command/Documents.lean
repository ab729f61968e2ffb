import TypedJson.Bootstrap
import TypedJson.Command
import TypedJson.Glob
import TypedJson.Pointer

/-!
# The documents of a command

`Inputs.load` resolves the paths and patterns of the inputs, reads the files and
cuts them into documents. `CommandError` says why a command cannot do its work.
-/

set_option autoImplicit false

namespace TypedJson

/-- Why a command cannot do its work. -/
inductive CommandError where
  | schemaUnreadable (path : String) (e : FileError)
  | schemaInvalid (path : String) (e : SchemaError)
  | schemaUnknown (e : ConfigError)
  | patternFaulty (e : Glob.PatternError)
  | patternUnmatched (pattern : String)
  | sourceUnreadable (path : String) (e : FileError)
  | nothingSelected (pointer source : String)
  | valueUnreadable (path : String) (e : FileError)
  | valueMalformed (path : String) (e : ReadError)
  | directoryNotMade (path : String) (e : FileError)
  | outputNotWritten (path : String) (e : FileError)
  deriving DecidableEq

/-- The wording of a command error: what was tried, then why it failed. -/
def CommandError.message : CommandError → String
  | .schemaUnreadable path e => "failed to read schema file (" ++ path ++ "): " ++ e.message
  | .schemaInvalid path e =>
      "invalid schema file (" ++ path ++ "): " ++ e.message ++ ": " ++ e.inner
  | .schemaUnknown e => e.message
  | .patternFaulty e => "failed to resolve input file paths: " ++ e.message
  | .patternUnmatched pattern =>
      "failed to resolve input file paths: glob pattern matched no files: " ++ pattern
  | .sourceUnreadable path e => "failed to read source file (" ++ path ++ "): " ++ e.message
  | .nothingSelected pointer source =>
      "JSON pointer " ++ pointer ++ " selects nothing in " ++ source
  | .valueUnreadable path e => "failed to read " ++ path ++ ": " ++ e.message
  | .valueMalformed path e => "failed to parse JSON source file (" ++ path ++ "): " ++ e.reason
  | .directoryNotMade path e => "failed to create " ++ path ++ ": " ++ e.message
  | .outputNotWritten path e => "failed to write " ++ path ++ ": " ++ e.message

/-- A text to work on, and where it comes from. -/
structure Document where
  source : String
  text : String
  deriving DecidableEq, Repr

namespace Inputs

/-- A path with a wildcard, a set or a brace is a pattern. -/
def isPattern (path : String) : Bool :=
  path.toList.any fun c => c == '*' || c == '?' || c == '[' || c == '\x7b'

/-- The paths that one input stands for; a pattern stands for at least one. -/
def resolve (files : Files) (input : String) : Except CommandError (List String) :=
  if isPattern input then
    match Glob.search files input with
    | .ok [] => .error (.patternUnmatched input)
    | .ok paths => .ok paths
    | .error e => .error (.patternFaulty e)
  else .ok [input]

/-- The paths that inputs stand for. -/
def resolveAll (files : Files) : List String → Except CommandError (List String)
  | [] => .ok []
  | input :: rest => do
      let paths ← resolve files input
      let more ← resolveAll files rest
      .ok (paths ++ more)

/-- The part of a document that a pointer selects, written anew. A text that is no
value stays as it is, for decoding to report. -/
def select (pointer : Option String) (document : Document) : Except CommandError Document :=
  match pointer with
  | none => .ok document
  | some pointer =>
      match parse document.text with
      | .error _ => .ok document
      | .ok v =>
          match Pointer.select pointer v with
          | some part => .ok { document with text := part.compact }
          | none => .error (.nothingSelected pointer document.source)

/-- Documents from lines, the first of which has the given number. Blank lines are
counted and passed over. -/
def lineDocuments (path : String) : Nat → List String → List Document
  | _, [] => []
  | number, line :: rest =>
      let more := lineDocuments path (number + 1) rest
      if Text.isBlank line then more else ⟨path ++ ":" ++ toString number, line⟩ :: more

/-- The documents in the text of a file. -/
def split (perLine : Bool) (path contents : String) : List Document :=
  if perLine then lineDocuments path 1 (Text.lines contents) else [⟨path, contents⟩]

/-- Selects from documents in turn. -/
def selectAll (pointer : Option String) : List Document → Except CommandError (List Document)
  | [] => .ok []
  | document :: rest => do
      let selected ← select pointer document
      let more ← selectAll pointer rest
      .ok (selected :: more)

/-- The documents of one file. -/
def loadFile (files : Files) (inputs : Inputs) (path : String) :
    Except CommandError (List Document) :=
  match files.read path with
  | .ok contents => selectAll inputs.pointer (split inputs.perLine path contents)
  | .error e => .error (.sourceUnreadable path e)

/-- The documents of files in turn. -/
def loadFiles (files : Files) (inputs : Inputs) : List String → Except CommandError (List Document)
  | [] => .ok []
  | path :: rest => do
      let documents ← loadFile files inputs path
      let more ← loadFiles files inputs rest
      .ok (documents ++ more)

/-- The documents of all inputs. All paths are resolved before a file is read. -/
def load (files : Files) (inputs : Inputs) : Except CommandError (List Document) := do
  let paths ← resolveAll files inputs.patterns
  loadFiles files inputs paths

end Inputs

end TypedJson
