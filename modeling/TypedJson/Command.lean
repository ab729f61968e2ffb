/-!
# Commands

What the command line can ask for: check documents against a schema, encode a value
through one, validate schema documents, or print the terms that describe types and
schemas themselves.
-/

set_option autoImplicit false

namespace TypedJson

/-- What a self-describing term is about: schemas, types or any data. -/
inductive Subject where
  | schema
  | type
  | data
  deriving DecidableEq, Repr

/-- The documents that a command works on: files given by paths or patterns, each a
document or, with `perLine`, a document a line; `pointer` selects a part of each. -/
structure Inputs where
  perLine : Bool
  pointer : Option String
  patterns : List String
  deriving DecidableEq, Repr

/-- A command. -/
inductive Command where
  | check (inputs : Inputs) (schema : String) (maxDepth : UInt64) (report : Option String)
  | encode (schema input : String) (maxDepth : UInt64) (out : Option String)
  | validateSchema (inputs : Inputs) (maxDepth : UInt64)
  | bootstrap (subject : Subject) (out : Option String)
  deriving DecidableEq

end TypedJson
