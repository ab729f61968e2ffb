import TypedJson.Check
import TypedJson.Command

/-!
# The arguments of a command

`Command.ofArguments` reads the words of a command line. An option takes its value
from its own word (`--out=a`, `-oa`, `-o=a`) or from the words after it. Words
after an option are held back: they are looked at when the next option is read or
the words end, so that of two faults the later one can be the one reported.
-/

set_option autoImplicit false

namespace TypedJson

/-- Why words make no command; `help` and `version` are answers of their own. -/
inductive UsageError where
  | help
  | version
  | noCommand
  | unknownCommand
  | missingOption
  | unknownArgument
  | invalidValue
  | invalidNumber
  | repeatedOption
  | unexpectedValue
  deriving DecidableEq, Repr

/-- The exit code of words that make no command. -/
def UsageError.exit : UsageError → Nat
  | .help | .version => 0
  | _ => 2

namespace Arguments

/-- The commands by name. -/
inductive Verb where
  | check
  | encode
  | validateSchema
  | bootstrap
  deriving DecidableEq, Repr

/-- All commands. -/
def Verb.all : List Verb := [.check, .encode, .validateSchema, .bootstrap]

/-- The name of a command. -/
def Verb.name : Verb → String
  | .check => "check"
  | .encode => "encode"
  | .validateSchema => "validate-schema"
  | .bootstrap => "bootstrap"

/-- The command of a name. -/
def Verb.ofName? (name : String) : Option Verb :=
  all.find? fun verb => verb.name == name

/-- The options of all commands. -/
inductive Opt where
  | ndjson
  | jsonPointer
  | input
  | schema
  | maxDepth
  | diagnosticsOut
  | out
  | which
  | help
  deriving DecidableEq, Repr

namespace Opt

/-- The name of an option. -/
def name : Opt → String
  | .ndjson => "ndjson"
  | .jsonPointer => "json-pointer"
  | .input => "input"
  | .schema => "schema"
  | .maxDepth => "max-depth"
  | .diagnosticsOut => "diagnostics-out"
  | .out => "out"
  | .which => "which"
  | .help => "help"

/-- The letter of an option that has one. -/
def letter? : Opt → Option Char
  | .input => some 'i'
  | .out => some 'o'
  | .help => some 'h'
  | _ => none

/-- An option that takes no value. -/
def isFlag : Opt → Bool
  | .ndjson | .help => true
  | _ => false

end Opt

/-- The options of a command. -/
def Verb.options : Verb → List Opt
  | .check => [.ndjson, .jsonPointer, .input, .schema, .maxDepth, .diagnosticsOut, .help]
  | .encode => [.schema, .input, .maxDepth, .out, .help]
  | .validateSchema => [.ndjson, .jsonPointer, .input, .maxDepth, .help]
  | .bootstrap => [.which, .out, .help]

/-- An option that takes several values and may be given again. -/
def Verb.repeats (verb : Verb) (opt : Opt) : Bool :=
  opt == .input && verb != .encode

/-- What an option with its value says. -/
inductive Setting where
  | perLine
  | pointer (pointer : String)
  | inputs (patterns : List String)
  | schema (path : String)
  | maxDepth (depth : UInt64)
  | report (path : String)
  | out (path : String)
  | subject (subject : Subject)
  deriving DecidableEq

/-- The option that a setting comes from. -/
def Setting.option : Setting → Opt
  | .perLine => .ndjson
  | .pointer _ => .jsonPointer
  | .inputs _ => .input
  | .schema _ => .schema
  | .maxDepth _ => .maxDepth
  | .report _ => .diagnosticsOut
  | .out _ => .out
  | .subject _ => .which

/-- A path; it may not be empty. -/
def path (value : String) : Except UsageError String :=
  if value.isEmpty then .error .invalidValue else .ok value

/-- A number of 64 bits in decimal, a plus in front allowed. -/
def depth (value : String) : Except UsageError UInt64 :=
  let digits :=
    match value.toList with
    | '+' :: digits => digits
    | digits => digits
  let n := digits.foldl (fun n c => n * 10 + (c.toNat - 48)) 0
  if digits.isEmpty || digits.any (fun c => c < '0' || '9' < c) || UInt64.size ≤ n then
    .error .invalidNumber
  else .ok (UInt64.ofNat n)

/-- The subject of a name. -/
def subject (value : String) : Except UsageError Subject :=
  match value with
  | "schema" => .ok .schema
  | "type" => .ok .type
  | "data" => .ok .data
  | _ => .error .invalidValue

/-- What an option says with its values. -/
def setting (verb : Verb) (opt : Opt) (values : List String) : Except UsageError Setting :=
  match opt, values with
  | .help, _ => .error .help
  | .ndjson, _ => .ok .perLine
  | _, [] => .error .invalidValue
  | .jsonPointer, value :: _ => .ok (.pointer value)
  | .input, value :: more =>
      if verb.repeats .input then .ok (.inputs (value :: more))
      else (path value).map fun value => .inputs [value]
  | .schema, value :: _ => (path value).map .schema
  | .maxDepth, value :: _ => (depth value).map .maxDepth
  | .diagnosticsOut, value :: _ => (path value).map .report
  | .out, value :: _ => (path value).map .out
  | .which, value :: _ => (subject value).map .subject

/-- The words read so far: what they say, the last option with the values held back
for it, and whether it takes more. -/
structure State where
  settings : List Setting
  held : Option (Opt × List String)
  accepting : Bool

namespace State

/-- Nothing read yet. -/
def initial : State := ⟨[], none, false⟩

/-- Adds what an option says. An option without its value is refused before one that
is given again, and that before a value that is not right. -/
def add (verb : Verb) (state : State) (opt : Opt) (values : List String) :
    Except UsageError State := do
  if values.isEmpty && !opt.isFlag then throw .invalidValue
  if !verb.repeats opt && state.settings.any (fun setting => setting.option == opt) then
    throw .repeatedOption
  let setting ← setting verb opt values
  return ⟨state.settings ++ [setting], none, false⟩

/-- Adds the option whose values are held back. -/
def release (verb : Verb) (state : State) : Except UsageError State :=
  match state.held with
  | some (opt, values) => { state with held := none }.add verb opt values
  | none => .ok { state with accepting := false }

/-- Reads an option with the value that its own word gives. -/
def readOption (verb : Verb) (state : State) (opt : Opt) (value : Option String) :
    Except UsageError State := do
  match value with
  | some value =>
      if opt.isFlag then throw .unexpectedValue
      let state ← state.release verb
      state.add verb opt [value]
  | none =>
      let state ← state.release verb
      if opt.isFlag then state.add verb opt []
      else return { state with held := some (opt, []), accepting := true }

/-- Reads a word that is no option: a value of the option before it. -/
def readValue (verb : Verb) (state : State) (word : String) : Except UsageError State :=
  match state.held, state.accepting with
  | some (opt, values), true =>
      .ok { state with held := some (opt, values ++ [word]), accepting := verb.repeats opt }
  | _, _ => .error .unknownArgument

end State

/-- A word of a command line. -/
inductive Word where
  | divider
  | long (name : String) (value : Option String)
  | short (letter : Char) (rest : List Char)
  | plain (text : String)

/-- The kind of a word: two dashes alone divide options from the rest, and one dash
alone is a plain word. -/
def Word.ofText (text : String) : Word :=
  match text.toList with
  | ['-', '-'] => .divider
  | '-' :: '-' :: cs =>
      let name := String.ofList (cs.takeWhile fun c => c ≠ '=')
      match cs.dropWhile fun c => c ≠ '=' with
      | [] => .long name none
      | _ :: value => .long name (some (String.ofList value))
  | '-' :: letter :: rest => .short letter rest
  | _ => .plain text

/-- The value that stands behind the letter of an option, with or without a sign of
equality. -/
def attached : List Char → Option String
  | [] => none
  | '=' :: value => some (String.ofList value)
  | value => some (String.ofList value)

/-- Reads the option of a command that has a property, with the value that its own
word gives. -/
def readNamed (verb : Verb) (state : State) (isNamed : Opt → Bool) (value : Opt → Option String) :
    Except UsageError State :=
  match verb.options.find? isNamed with
  | some opt => state.readOption verb opt (value opt)
  | none => .error .unknownArgument

/-- Reads words in turn. What follows the letter of a flag is not looked at, and
after a divider there may be no words. -/
def readWords (verb : Verb) (state : State) : List String → Except UsageError State
  | [] => state.release verb
  | word :: rest =>
      match Word.ofText word with
      | .divider => if rest.isEmpty then state.release verb else .error .unknownArgument
      | .plain text => do
          let state ← state.readValue verb text
          readWords verb state rest
      | .long name value => do
          let state ← readNamed verb state (fun opt => opt.name == name) fun _ => value
          readWords verb state rest
      | .short letter more => do
          let state ← readNamed verb state (fun opt => opt.letter? == some letter) fun opt =>
            if opt.isFlag then none else attached more
          readWords verb state rest

/-- The patterns of all inputs, in order. -/
def patterns (settings : List Setting) : List String :=
  settings.flatMap fun
    | .inputs patterns => patterns
    | _ => []

/-- The inputs that settings name; at least one. -/
def inputs (settings : List Setting) : Except UsageError Inputs :=
  let pointer := settings.findSome? fun
    | .pointer pointer => some pointer
    | _ => none
  if (patterns settings).isEmpty then .error .missingOption
  else .ok ⟨settings.contains .perLine, pointer, patterns settings⟩

/-- The schema that settings name. -/
def schemaPath (settings : List Setting) : Except UsageError String :=
  let found := settings.findSome? fun
    | .schema path => some path
    | _ => none
  match found with
  | some path => .ok path
  | none => .error .missingOption

/-- The depth limit of settings. -/
def depthLimit (settings : List Setting) : UInt64 :=
  (settings.findSome? fun
    | .maxDepth depth => some depth
    | _ => none).getD (Checker.maxDepth {})

/-- The report that settings ask for. -/
def reportPath (settings : List Setting) : Option String :=
  settings.findSome? fun
    | .report path => some path
    | _ => none

/-- The output that settings name. -/
def outPath (settings : List Setting) : Option String :=
  settings.findSome? fun
    | .out path => some path
    | _ => none

/-- The subject that settings name. -/
def chosenSubject (settings : List Setting) : Subject :=
  (settings.findSome? fun
    | .subject subject => some subject
    | _ => none).getD .schema

/-- The command that settings make. -/
def command (verb : Verb) (settings : List Setting) : Except UsageError Command :=
  match verb with
  | .check => do
      let inputs ← inputs settings
      let schema ← schemaPath settings
      return .check inputs schema (depthLimit settings) (reportPath settings)
  | .encode => do
      let schema ← schemaPath settings
      match patterns settings with
      | input :: _ => return .encode schema input (depthLimit settings) (outPath settings)
      | [] => throw .missingOption
  | .validateSchema => do
      let inputs ← inputs settings
      return .validateSchema inputs (depthLimit settings)
  | .bootstrap => return .bootstrap (chosenSubject settings) (outPath settings)

/-- Help on nothing, on a command or on help itself. -/
def helpOn : List String → UsageError
  | [] => .help
  | [name] => if name == "help" || (Verb.ofName? name).isSome then .help else .unknownCommand
  | _ => .unknownCommand

/-- A first word that names no command. -/
def strayOption : Word → UsageError
  | .long "help" value => if value.isSome then .unexpectedValue else .help
  | .long "version" value => if value.isSome then .unexpectedValue else .version
  | .short 'h' _ => .help
  | .short 'V' _ => .version
  | .plain _ => .unknownCommand
  | _ => .unknownArgument

/-- What the word after a leading divider is refused for. -/
def divided : List String → UsageError
  | [] => .noCommand
  | word :: _ =>
      if word == "help" || (Verb.ofName? word).isSome then .unknownArgument else .unknownCommand

end Arguments

open Arguments in
/-- The command that the words of a command line make. -/
def Command.ofArguments : List String → Except UsageError Command
  | [] => .error .noCommand
  | "help" :: rest => .error (helpOn rest)
  | "--" :: rest => .error (divided rest)
  | word :: rest =>
      match Verb.ofName? word with
      | some verb => do
          let state ← readWords verb .initial rest
          command verb state.settings
      | none => .error (strayOption (Word.ofText word))

end TypedJson
