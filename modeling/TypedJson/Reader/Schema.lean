import TypedJson.Reader.Skip
import TypedJson.Reader.Term
import TypedJson.Schema

/-!
# Reading schemas from texts

A schema in a text is an object or an array of its parts. Each part is read as it
comes; members that a schema does not have are passed over.
-/

set_option autoImplicit false

namespace TypedJson.Reader

variable {α : Type}

/-- The end of an array all of whose parts have been read. -/
def endOfArray (s : List Char) : Except Fault (List Char) :=
  match skipGap s with
  | [] => .error (.here .endInList [])
  | ']' :: rest => .ok rest
  | ',' :: t =>
      match skipGap t with
      | ']' :: u => .error (.next .trailingComma (']' :: u))
      | u => .error (.next .trailingCharacters u)
  | t => .error (.next .trailingCharacters t)

/-- The part with number `i` of an array that has to have it. -/
def position (expected : String) (part : List Char → Except Fault (Taken α)) (i : Nat)
    (s : List Char) : Except Fault (Taken α) := do
  match ← nextItem (i == 0) s with
  | .close rest => .error (.shape (.invalidLength i expected) rest)
  | .part t => below (.index i) (part t)

/-- A member of a schema's object that may stand once. -/
def onceMember {σ : Type} (seen : Option α) (value : List Char → Except Fault (Taken α))
    (put : α → σ) (key : String) (s : List Char) : Except Fault (Taken σ) :=
  if seen.isSome then .error (refuse (.duplicateField key) s)
  else do
    let (a, rest) ← memberValue value key s
    .ok (put a, rest)

/-- One member of a schema's object. -/
def schemaMember (room : Nat) (parts : Schema.Parts) (key : String) (s : List Char) :
    Except Fault (Taken Schema.Parts) :=
  match key with
  | "t" => onceMember parts.t (term room) (fun t => { parts with t := some t }) key s
  | "version" =>
      onceMember parts.version text (fun v => { parts with version := some v }) key s
  | "encoding" =>
      onceMember parts.encoding text (fun e => { parts with encoding := some e }) key s
  | "meta" =>
      onceMember parts.note (value room) (fun v => { parts with note := some v }) key s
  | _ => do
      let (_, rest) ← memberValue skip key s
      .ok (parts, rest)

/-- A schema. -/
def schema (room : Nat) (s : List Char) : Except Fault (Taken Schema) :=
  match skipGap s, room with
  | '[' :: t, room + 1 => do
      let (ty, t) ← position Schema.expectedParts (term room) 0 t
      let (version, t) ← position Schema.expectedParts text 1 t
      let (encoding, t) ← position Schema.expectedParts text 2 t
      let (note, t) ← position Schema.expectedParts (value room) 3 t
      let rest ← endOfArray t
      .ok (⟨ty, version, encoding, note⟩, rest)
  | '[' :: t, 0 => .error (.next .nestedTooDeep ('[' :: t))
  | _, room =>
      object "struct Schema" room (fun room t => do
        let (parts, rest) ← members (schemaMember room) (t.length + 1) true {} t
        match Schema.build parts with
        | .ok schema => .ok (schema, rest)
        | .error fault => .error (.shape fault rest)) s

end TypedJson.Reader

namespace TypedJson

/-- The schema of a whole text. -/
def Schema.parse (text : String) : Except ReadError Schema :=
  Reader.whole (Reader.schema Reader.maxOpen) text

end TypedJson
