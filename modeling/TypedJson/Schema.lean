import TypedJson.Type.Wire

/-!
# Schemas

A schema is a type together with a version, an encoding and a note. Version and
encoding are plain texts, so that a schema with unknown ones can be read and
written; `Schema.config` says whether they are known. `Schema.ofValue` reads a
schema from an object, whose other members are passed over, or from an array of
its four parts in order.
-/

set_option autoImplicit false

namespace TypedJson

/-- A type, and how its values are encoded. -/
structure Schema where
  t : Ty
  version : String
  encoding : String
  note : Value
  deriving DecidableEq

/-- The encodings of values. -/
inductive Encoding where
  | json
  deriving DecidableEq, Repr

/-- The name of an encoding. -/
def Encoding.name : Encoding → String
  | .json => "json"

/-- A version or an encoding that is not known. -/
inductive ConfigError where
  | unknownVersion (version : String)
  | unknownEncoding (encoding : String)
  deriving DecidableEq, Repr

namespace ConfigError

/-- The wording of a configuration error. -/
def message : ConfigError → String
  | .unknownVersion version => "unknown schema version " ++ Text.quoted version
  | .unknownEncoding encoding => "unknown schema encoding " ++ Text.quoted encoding

/-- A configuration error as a value. -/
def toValue : ConfigError → Value
  | .unknownVersion version =>
      .object [("error", .string "unknown schema version"), ("version", .string version)]
  | .unknownEncoding encoding =>
      .object [("error", .string "unknown schema encoding"), ("encoding", .string encoding)]

end ConfigError

/-- The encoding with a name. -/
def Encoding.ofName (name : String) : Except ConfigError Encoding :=
  if name = Encoding.json.name then .ok .json else .error (.unknownEncoding name)

namespace Schema

/-- The one version that is known. -/
def knownVersion : String := "0"

/-- A schema in the known version and encoding. -/
def json (t : Ty) (note : Value) : Schema :=
  ⟨t, knownVersion, Encoding.json.name, note⟩

/-- The encoding of a schema whose version and encoding are known; the version is
looked at first. -/
def config (schema : Schema) : Except ConfigError Encoding :=
  if schema.version = knownVersion then Encoding.ofName schema.encoding
  else .error (.unknownVersion schema.version)

/-- A schema as a value. -/
def toValue (schema : Schema) : Value :=
  .object [("t", schema.t.toValue), ("version", .string schema.version),
    ("encoding", .string schema.encoding), ("meta", schema.note)]

/-- The compact text of a schema. -/
def text (schema : Schema) : String :=
  schema.toValue.compact

/-- The parts of a schema that have been read so far. -/
structure Parts where
  t : Option Ty := none
  version : Option String := none
  encoding : Option String := none
  note : Option Value := none

/-- The schema of its parts. -/
def build (parts : Parts) : Except ShapeFault Schema := do
  let t ← Ty.need "t" parts.t
  let version ← Ty.need "version" parts.version
  let encoding ← Ty.need "encoding" parts.encoding
  let note ← Ty.need "meta" parts.note
  .ok ⟨t, version, encoding, note⟩

/-- What is expected of an array of the parts. -/
def expectedParts : String := "struct Schema with 4 elements"

end Schema

namespace ReadError

variable {α : Type}

/-- The outcome for a part, seen from the value that it is a part of. -/
def under (step : PathStep) (outcome : Except ReadError α) : Except ReadError α :=
  outcome.mapError fun e => { e with path := step :: e.path }

/-- The outcome of a reading that looks at shapes only. -/
def atTop (outcome : Except ShapeFault α) : Except ReadError α :=
  outcome.mapError (ofShape [])

/-- The outcome for a part that is read by its shape only. -/
def ofPart (step : PathStep) (outcome : Except ShapeFault α) : Except ReadError α :=
  under step (atTop outcome)

/-- Every item, with its number from `i` on. -/
def itemsFrom (read : Value → Except ReadError α) (i : Nat) :
    List Value → Except ReadError (List α)
  | [] => .ok []
  | v :: rest => do
      let a ← under (.index i) (read v)
      let more ← itemsFrom read (i + 1) rest
      .ok (a :: more)

/-- The items of an array. -/
def listed (read : Value → Except ReadError α) : Value → Except ReadError (List α)
  | .array items => itemsFrom read 0 items
  | v => atTop (.error (.invalidType (Found.ofValue v) "a sequence"))

/-- Every member. -/
def membersOf (read : Value → Except ReadError α) :
    List (String × Value) → Except ReadError (List (String × α))
  | [] => .ok []
  | (name, v) :: rest => do
      let a ← under (.key name) (read v)
      let more ← membersOf read rest
      .ok ((name, a) :: more)

/-- The members of an object. -/
def named (read : Value → Except ReadError α) : Value → Except ReadError (Entries α)
  | .object members => do
      let named ← membersOf read members
      .ok (Entries.ofList named)
  | v => atTop (.error (.invalidType (Found.ofValue v) "a map"))

end ReadError

/-- A basic kind that stands on its own; what is under its name has a path. -/
def Basic.readValue : Value → Except ReadError Basic
  | .object [(name, v)] => do
      let basic ← ReadError.atTop (ofName name)
      if v = .null then .ok basic
      else ReadError.ofPart (.key name) (.error (.invalidType (Found.ofValue v) "unit"))
  | v => ReadError.atTop (ofPart v)

namespace Schema

open ReadError

/-- The parts of a schema, read in the order of the members. -/
def partsOf : List (String × Value) → Parts → Except ReadError Parts
  | [], parts => .ok parts
  | (name, v) :: rest, parts =>
      match name with
      | "t" => do
          atTop (Ty.once name parts.t)
          let t ← ofPart (.key name) (Ty.ofValue v)
          partsOf rest { parts with t := some t }
      | "version" => do
          atTop (Ty.once name parts.version)
          let version ← ofPart (.key name) (Ty.textOf v)
          partsOf rest { parts with version := some version }
      | "encoding" => do
          atTop (Ty.once name parts.encoding)
          let encoding ← ofPart (.key name) (Ty.textOf v)
          partsOf rest { parts with encoding := some encoding }
      | "meta" => do
          atTop (Ty.once name parts.note)
          partsOf rest { parts with note := some v.merged }
      | _ => partsOf rest parts

/-- The schema of an array of its parts. -/
def ofItems : List Value → Except ReadError Schema
  | [] => atTop (.error (.invalidLength 0 expectedParts))
  | t :: more => do
      let t ← ofPart (.index 0) (Ty.ofValue t)
      match more with
      | [] => atTop (.error (.invalidLength 1 expectedParts))
      | version :: more => do
          let version ← ofPart (.index 1) (Ty.textOf version)
          match more with
          | [] => atTop (.error (.invalidLength 2 expectedParts))
          | encoding :: more => do
              let encoding ← ofPart (.index 2) (Ty.textOf encoding)
              match more with
              | [] => atTop (.error (.invalidLength 3 expectedParts))
              | note :: more =>
                  if more.isEmpty then .ok ⟨t, version, encoding, note.merged⟩
                  else
                    atTop (.error (.invalidLength (more.length + 4)
                      "fewer elements in array"))

/-- The schema that a value describes. -/
def ofValue : Value → Except ReadError Schema
  | .object members => do
      let parts ← partsOf members {}
      atTop (build parts)
  | .array items => ofItems items
  | v => atTop (.error (.invalidType (Found.ofValue v) "struct Schema"))

end Schema

end TypedJson
