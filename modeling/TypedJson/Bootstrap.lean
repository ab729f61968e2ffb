import TypedJson.Codec

/-!
# Types and schemas described by types

`Bootstrap.dataType` describes every value, `Bootstrap.typeType` every type as data,
and `Bootstrap.schemaType` every schema as data. `Schema.read` reads a schema
document: the text is decoded through the schema of schemas, and what passes is
taken for a schema.
-/

set_option autoImplicit false

namespace TypedJson

namespace Bootstrap

/-- A basic type without a note. -/
def basic (sub : Basic) : Ty := .basic sub none

/-- A reference without a note. -/
def ref (name : String) : Ty := .ref name none

/-- A literal text without a note. -/
def word (text : String) : Ty := .literal (.string text) none

/-- Any value, given that `data` means the same. -/
def dataUnion : Ty :=
  .union [basic .string, basic .float, basic .int, basic .bool, basic .null,
    .map (basic .string) (ref "data") none, .list (ref "data") none] none

/-- Any value. -/
def dataType : Ty :=
  .letIn [("data", dataUnion)] (ref "data") none

/-- A form of type terms: its tag, its parts, and a note that may be missing. -/
def form (kind : Kind) (parts : List (String × Ty)) : Ty :=
  .struct (("kind", word kind.tag) :: (parts ++ [("meta", ref "maybe-data")])) none

/-- A type term. -/
def term : Ty := ref "type"

/-- Named type terms. -/
def named : Ty := .map (basic .string) term none

/-- The names that describe type terms. -/
def typeBindings : Bindings :=
  [("type", .union [ref "basic", ref "literal", ref "union", ref "struct", ref "map", ref "list",
      ref "tuple", ref "let", ref "ref"] none),
    ("basic", form .basic [("sub", .union (Basic.all.map fun sub => word sub.name) none)]),
    ("literal", form .literal [("value", ref "data")]),
    ("union", form .union [("alts", .list term none)]),
    ("struct", form .struct [("fields", named)]),
    ("map", form .map [("key", term), ("value", term)]),
    ("list", form .list [("value", term)]),
    ("tuple", form .tuple [("fields", .list term none)]),
    ("let", form .letIn [("bindings", named), ("t", term)]),
    ("ref", form .ref [("name", basic .string)]),
    ("maybe-data", (ref "data").maybe),
    ("data", dataUnion)]

/-- Any type term. -/
def typeType : Ty :=
  .letIn typeBindings term none

/-- Any schema in the known version and encoding. -/
def schemaType : Ty :=
  .struct [("t", typeType), ("version", .union [word Schema.knownVersion] none),
    ("encoding", .union [word Encoding.json.name] none), ("meta", dataType)] none

/-- The schema of schemas. -/
def schemaSchema (note : Value) : Schema :=
  .json schemaType note

end Bootstrap

/-- Why a text is no schema document. -/
inductive SchemaError where
  | decode (e : DecodeError)
  | shape (e : ReadError)
  deriving DecidableEq

namespace SchemaError

/-- What is wrong inside. -/
def inner : SchemaError → String
  | .decode e => e.message
  | .shape e => e.message

/-- A schema error in one line. -/
def message : SchemaError → String
  | .decode e => "not a schema document: " ++ e.message
  | .shape e => "malformed schema document " ++ e.message

end SchemaError

namespace Schema

/-- The codec of schema documents. -/
def documents (checker : Checker) : Codec :=
  ⟨Bootstrap.schemaType, .json, checker⟩

/-- The schema of a document, checked by the given checker. -/
def read (checker : Checker) (text : String) : Except SchemaError Schema :=
  match (documents checker).decode text with
  | .error e => .error (.decode e)
  | .ok decoded =>
      match ofValue decoded.term with
      | .ok schema => .ok schema
      | .error e => .error (.shape e)

end Schema

end TypedJson
