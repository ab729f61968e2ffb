import TypedJson.Text.Position
import TypedJson.Text.Quoted
import TypedJson.Value

/-!
# What can be wrong with a text or with the shape of a value

A `TextFault` is a text that is no JSON; a `ShapeFault` is a value that has not the
shape that was asked for. A reader of texts reports a `Fault`: the cause, the place
in the text, and the path of keys and indices down to it. `ReadError` is the form
in which a failed reading leaves the readers, with the place as a line and column;
a value that was read from no text has no place.
-/

set_option autoImplicit false

namespace TypedJson

/-- Why a text is no JSON. -/
inductive TextFault where
  | endInValue
  | endInList
  | endInObject
  | endInString
  | expectedValue
  | expectedIdent
  | expectedColon
  | expectedCommaOrBracket
  | expectedCommaOrBrace
  | keyNotString
  | trailingComma
  | trailingCharacters
  | invalidNumber
  | numberOutOfRange
  | invalidEscape
  | unfinishedSurrogatePair
  | loneSurrogate
  | controlCharacter
  | nestedTooDeep
  deriving DecidableEq, Repr

/-- The wording of a text fault. -/
def TextFault.message : TextFault → String
  | .endInValue => "EOF while parsing a value"
  | .endInList => "EOF while parsing a list"
  | .endInObject => "EOF while parsing an object"
  | .endInString => "EOF while parsing a string"
  | .expectedValue => "expected value"
  | .expectedIdent => "expected ident"
  | .expectedColon => "expected `:`"
  | .expectedCommaOrBracket => "expected `,` or `]`"
  | .expectedCommaOrBrace => "expected `,` or `\x7d`"
  | .keyNotString => "key must be a string"
  | .trailingComma => "trailing comma"
  | .trailingCharacters => "trailing characters"
  | .invalidNumber => "invalid number"
  | .numberOutOfRange => "number out of range"
  | .invalidEscape => "invalid escape"
  | .unfinishedSurrogatePair => "unexpected end of hex escape"
  | .loneSurrogate => "lone leading surrogate in hex escape"
  | .controlCharacter => "control character (\\u0000-\\u001F) found while parsing a string"
  | .nestedTooDeep => "recursion limit exceeded"

/-- What stands in a place where something else was expected. -/
inductive Found where
  | null
  | bool (b : Bool)
  | number (n : Number)
  | string (s : String)
  | sequence
  | map
  deriving DecidableEq

namespace Found

/-- What a value is, where something else was expected. -/
def ofValue : Value → Found
  | .null => .null
  | .bool b => .bool b
  | .number n => .number n
  | .string s => .string s
  | .array _ => .sequence
  | .object _ => .map

/-- The wording of what was found. -/
def text : Found → String
  | .null => "null"
  | .bool b => "boolean `" ++ toString b ++ "`"
  | .number (.int n _) => "integer `" ++ String.ofList (Number.intText n) ++ "`"
  | .number (.float x) => "floating point `" ++ String.ofList x.text ++ "`"
  | .string s => "string " ++ Text.quoted s
  | .sequence => "sequence"
  | .map => "map"

end Found

/-- Why a value has not the shape that was asked for. -/
inductive ShapeFault where
  | invalidType (found : Found) (expected : String)
  | invalidValue (found : Found) (expected : String)
  | invalidLength (length : Nat) (expected : String)
  | missingField (name : String)
  | duplicateField (name : String)
  | unknownVariant (name : String) (known : List String)
  deriving DecidableEq

/-- The wording of a shape fault. -/
def ShapeFault.message : ShapeFault → String
  | .invalidType found expected => "invalid type: " ++ found.text ++ ", expected " ++ expected
  | .invalidValue found expected => "invalid value: " ++ found.text ++ ", expected " ++ expected
  | .invalidLength length expected =>
      "invalid length " ++ toString length ++ ", expected " ++ expected
  | .missingField name => "missing field `" ++ name ++ "`"
  | .duplicateField name => "duplicate field `" ++ name ++ "`"
  | .unknownVariant name known =>
      "unknown variant `" ++ name ++ "`, expected one of " ++
        String.intercalate ", " (known.map fun option => "`" ++ option ++ "`")

/-- The cause of a failed reading. -/
inductive Cause where
  | text (fault : TextFault)
  | shape (fault : ShapeFault)
  deriving DecidableEq

/-- The wording of a cause. -/
def Cause.message : Cause → String
  | .text fault => fault.message
  | .shape fault => fault.message

/-- One step from a container to a part of it; `unknown` is a key that could not be
read. -/
inductive PathStep where
  | key (name : String)
  | index (i : Nat)
  | unknown
  deriving DecidableEq

namespace PathStep

/-- The wording of a step. -/
def text : PathStep → String
  | .key name => name
  | .index i => "[" ++ toString i ++ "]"
  | .unknown => "?"

/-- A step below others: keys are set off by a point, indices are not. -/
def textBelow : PathStep → String
  | .index i => "[" ++ toString i ++ "]"
  | step => "." ++ step.text

/-- The wording of a path; the empty path is a point. -/
def pathText : List PathStep → String
  | [] => "."
  | step :: below => below.foldl (fun text next => text ++ next.textBelow) step.text

end PathStep

/-- A failed reading inside a text: the place is `ahead` bytes past the point where
`rest` remains. -/
structure Fault where
  cause : Cause
  rest : List Char
  ahead : Nat
  path : List PathStep

/-- What was read from the front of a text, and what remains. -/
abbrev Taken (α : Type) := α × List Char

namespace Fault

/-- A text fault where `rest` remains. -/
def here (fault : TextFault) (rest : List Char) : Fault :=
  ⟨.text fault, rest, 0, []⟩

/-- A text fault at the next byte, which is looked at and not taken. -/
def next (fault : TextFault) (rest : List Char) : Fault :=
  ⟨.text fault, rest, 1, []⟩

/-- A shape fault where `rest` remains. -/
def shape (fault : ShapeFault) (rest : List Char) : Fault :=
  ⟨.shape fault, rest, 0, []⟩

/-- The same fault, seen from the container. -/
def below (step : PathStep) (fault : Fault) : Fault :=
  { fault with path := step :: fault.path }

end Fault

/-- A failed reading: cause, path, and the place when a text was read. -/
structure ReadError where
  cause : Cause
  position : Option Position
  path : List PathStep
  deriving DecidableEq

namespace ReadError

/-- A shape fault of a value that was read from no text. -/
def ofShape (path : List PathStep) (fault : ShapeFault) : ReadError :=
  ⟨.shape fault, none, path⟩

/-- A fault of a reader, with its place in the whole text. -/
def ofFault (text : List Char) (fault : Fault) : ReadError :=
  ⟨fault.cause, some (Position.locate text fault.rest fault.ahead), fault.path⟩

/-- The cause, and the place when there is one. -/
def reason (e : ReadError) : String :=
  match e.position with
  | some p => e.cause.message ++ p.suffix
  | none => e.cause.message

/-- The cause with its path. -/
def message (e : ReadError) : String :=
  "at JSON path " ++ PathStep.pathText e.path ++ " → " ++ e.reason

end ReadError

/-- A reading seen from the container of what is read. -/
def below {α : Type} (step : PathStep) (reading : Except Fault α) : Except Fault α :=
  reading.mapError (Fault.below step)

end TypedJson
