import TypedJson.Check
import TypedJson.Reader.Schema

/-!
# Encoding and decoding through a schema

A codec lets values pass that conform to the type of its schema. Encoding checks a
value before it writes it, so that a refused value has no text. Decoding parses a
text before it checks, so that only values are checked.
-/

set_option autoImplicit false

namespace TypedJson

/-- The type, the encoding and the checker of a codec. -/
structure Codec where
  t : Ty
  encoding : Encoding
  checker : Checker
  deriving DecidableEq

/-- A value that has passed a codec. -/
structure Decoded where
  term : Value
  deriving DecidableEq

/-- A decoded value as a value. -/
def Decoded.toValue (decoded : Decoded) : Value :=
  .object [("term", decoded.term)]

/-- Why a text was not decoded. -/
inductive DecodeError where
  | malformed (data reason : String)
  | type (failure : Failure)
  deriving DecidableEq

namespace DecodeError

/-- A decode error in one line. -/
def message : DecodeError → String
  | .malformed _ reason => "invalid JSON: " ++ reason
  | .type failure => failure.message

/-- A decode error with the failures under it; each ends in a line feed. -/
def render : DecodeError → String
  | .malformed _ reason => "invalid JSON: " ++ reason ++ "\n"
  | .type failure => failure.render

/-- A decode error as a value. -/
def toValue : DecodeError → Value
  | .malformed data reason =>
      .object [("error", .string "invalid JSON"), ("data", .string data),
        ("reason", .string reason)]
  | .type failure => failure.toValue

end DecodeError

namespace Codec

/-- The codec of a schema whose version and encoding are known. -/
def ofSchema (schema : Schema) (checker : Checker) : Except ConfigError Codec := do
  let encoding ← schema.config
  .ok ⟨schema.t, encoding, checker⟩

/-- Checks a value, then writes it. -/
def encode (codec : Codec) (v : Value) : Except Failure String :=
  match codec.checker.check (some v) codec.t with
  | .ok _ =>
      match codec.encoding with
      | .json => .ok v.compact
  | .error failure => .error failure

/-- Checks a value that is already parsed. -/
def accept (codec : Codec) (v : Value) : Except DecodeError Decoded :=
  match codec.checker.check (some v) codec.t with
  | .ok _ => .ok ⟨v⟩
  | .error failure => .error (.type failure)

/-- Parses a text, then checks its value. -/
def decode (codec : Codec) (text : String) : Except DecodeError Decoded :=
  match codec.encoding with
  | .json =>
      match parse text with
      | .ok v => codec.accept v
      | .error e => .error (.malformed text e.reason)

end Codec

namespace Decoded

open ReadError

/-- What is expected of an array of the one part. -/
def expectedParts : String := "struct Decoded with 1 element"

/-- The decoded value that a value describes: an object or an array of one part. -/
def ofValue : Value → Except ReadError Decoded
  | .object members =>
      match members.filter fun member => member.1 == "term" with
      | [] => atTop (.error (.missingField "term"))
      | [(_, v)] => .ok ⟨v.merged⟩
      | _ => atTop (.error (.duplicateField "term"))
  | .array [] => atTop (.error (.invalidLength 0 expectedParts))
  | .array [v] => .ok ⟨v.merged⟩
  | .array items => atTop (.error (.invalidLength items.length "fewer elements in array"))
  | v => atTop (.error (.invalidType (Found.ofValue v) "struct Decoded"))

end Decoded

namespace Reader

/-- One member of a decoded value's object. -/
def decodedMember (room : Nat) (gathered : Option Value) (key : String) (s : List Char) :
    Except Fault (Taken (Option Value)) :=
  if key = "term" then onceMember gathered (value room) some key s
  else do
    let (_, rest) ← memberValue skip key s
    .ok (gathered, rest)

/-- A decoded value: an object or an array of one part. -/
def decoded (room : Nat) (s : List Char) : Except Fault (Taken Decoded) :=
  match skipGap s, room with
  | '[' :: t, room + 1 => do
      let (v, t) ← position Decoded.expectedParts (value room) 0 t
      let rest ← endOfArray t
      .ok (⟨v⟩, rest)
  | '[' :: t, 0 => .error (.next .nestedTooDeep ('[' :: t))
  | _, room =>
      object "struct Decoded" room (fun room t => do
        let (gathered, rest) ← members (decodedMember room) (t.length + 1) true none t
        match Ty.need "term" gathered with
        | .ok v => .ok (⟨v⟩, rest)
        | .error fault => .error (.shape fault rest)) s

end Reader

end TypedJson
