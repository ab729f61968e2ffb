import TypedJson.Type
import TypedJson.Reader.Fault

/-!
# Types as data

`Ty.toValue` writes a type as a value: an object that names the form of the term
under `kind`, then the parts of that form, then the note under `meta`.
`Ty.ofValue` reads such an object back. Members may come in any order, members that
the form does not have are passed over, and a form may also be named by its number.
A union needs at least one alternative.

`Ty.ofValue` takes values whose objects repeat names, as texts can have them: the
form, its parts and the note may stand only once.
-/

set_option autoImplicit false

namespace TypedJson

/-- The forms of type terms. -/
inductive Kind where
  | basic
  | literal
  | union
  | struct
  | map
  | list
  | tuple
  | letIn
  | ref
  deriving DecidableEq, Repr

namespace Kind

/-- All forms; the place of a form is its number. -/
def all : List Kind :=
  [.basic, .literal, .union, .struct, .map, .list, .tuple, .letIn, .ref]

/-- The tag of a form. -/
def tag : Kind → String
  | .basic => "type-basic"
  | .literal => "type-literal"
  | .union => "type-union"
  | .struct => "type-struct"
  | .map => "type-map"
  | .list => "type-list"
  | .tuple => "type-tuple"
  | .letIn => "type-let"
  | .ref => "type-ref"

/-- The form that a tag or a number names. -/
def ofValue : Value → Except ShapeFault Kind
  | .string s =>
      match all.find? fun kind => kind.tag == s with
      | some kind => .ok kind
      | none => .error (.unknownVariant s (all.map tag))
  | .number (.int n fits) =>
      if n < 0 then .error (.invalidType (.number (.int n fits)) "variant identifier")
      else
        match all[n.toNat]? with
        | some kind => .ok kind
        | none =>
            .error (.invalidValue (.number (.int n fits)) "variant index 0 <= i < 9")
  | v => .error (.invalidType (Found.ofValue v) "variant identifier")

/-- The form of a term from its members, of which one may name it; `seen` is the
form that earlier members named. -/
def ofMembers (seen : Option Kind) : List (String × Value) → Except ShapeFault Kind
  | [] =>
      match seen with
      | some kind => .ok kind
      | none => .error (.missingField "kind")
  | (name, v) :: rest =>
      if name = "kind" then
        match seen with
        | some _ => .error (.duplicateField "kind")
        | none => do
            let kind ← ofValue v
            ofMembers (some kind) rest
      else ofMembers seen rest

end Kind

/-- The form of a type. -/
def Ty.kind : Ty → Kind
  | .basic .. => .basic
  | .literal .. => .literal
  | .union .. => .union
  | .struct .. => .struct
  | .map .. => .map
  | .list .. => .list
  | .tuple .. => .tuple
  | .letIn .. => .letIn
  | .ref .. => .ref

namespace Basic

/-- The basic kind with a name, or the fault of there being none. -/
def ofName (name : String) : Except ShapeFault Basic :=
  match ofName? name with
  | some basic => .ok basic
  | none => .error (.unknownVariant name (all.map Basic.name))

/-- A basic kind inside a type: its name, or an object with that name as its only
member and nothing under it, that is null or the empty object. -/
def ofPart : Value → Except ShapeFault Basic
  | .string s => ofName s
  | .object [(name, v)] => do
      let basic ← ofName name
      if v = .null || v = .object [] then .ok basic
      else .error (.invalidType (Found.ofValue v) "unit")
  | .object _ => .error (.invalidValue .map "map with a single key")
  | v => .error (.invalidType (Found.ofValue v) "string or map")

end Basic

namespace Ty

/-- The object of a term: its form, its parts, and its note if it has one. -/
def wire (kind : Kind) (parts : List (String × Value)) (note : Option Value) : Value :=
  .object (("kind", .string kind.tag) :: (parts ++
    match note with
    | some v => [("meta", v)]
    | none => []))

mutual

/-- A type as a value. -/
def toValue : Ty → Value
  | .basic sub note => wire .basic [("sub", .string sub.name)] note
  | .literal value note => wire .literal [("value", value)] note
  | .union alts note => wire .union [("alts", .array (toValues alts))] note
  | .struct fields note => wire .struct [("fields", .object (toMembers fields))] note
  | .map key value note => wire .map [("key", toValue key), ("value", toValue value)] note
  | .list item note => wire .list [("value", toValue item)] note
  | .tuple items note => wire .tuple [("fields", .array (toValues items))] note
  | .letIn bindings body note =>
      wire .letIn [("bindings", .object (toMembers bindings)), ("t", toValue body)] note
  | .ref name note => wire .ref [("name", .string name)] note

/-- Types as values. -/
def toValues : List Ty → List Value
  | [] => []
  | t :: rest => toValue t :: toValues rest

/-- Named types as members. -/
def toMembers : List (String × Ty) → List (String × Value)
  | [] => []
  | (name, t) :: rest => (name, toValue t) :: toMembers rest

end

/-- The parts of a term that have been read so far. -/
structure Parts where
  sub : Option Basic := none
  value : Option Value := none
  alts : Option (List Ty) := none
  fields : Option Bindings := none
  key : Option Ty := none
  item : Option Ty := none
  items : Option (List Ty) := none
  bindings : Option Bindings := none
  body : Option Ty := none
  name : Option String := none

/-- A part may be read once. -/
def once {α : Type} (name : String) (part : Option α) : Except ShapeFault Unit :=
  if part.isSome then .error (.duplicateField name) else .ok ()

/-- A text, as a part. -/
def textOf : Value → Except ShapeFault String
  | .string s => .ok s
  | v => .error (.invalidType (Found.ofValue v) "a string")

/-- A part that has to be there. -/
def need {α : Type} (name : String) : Option α → Except ShapeFault α
  | some a => .ok a
  | none => .error (.missingField name)

/-- The term of a form with the parts that were read. -/
def build (kind : Kind) (parts : Parts) (note : Option Value) : Except ShapeFault Ty :=
  match kind with
  | .basic => do
      let sub ← need "sub" parts.sub
      .ok (.basic sub note)
  | .literal => do
      let value ← need "value" parts.value
      .ok (.literal value note)
  | .union => do
      let alts ← need "alts" parts.alts
      .ok (.union alts note)
  | .struct => do
      let fields ← need "fields" parts.fields
      .ok (.struct fields note)
  | .map => do
      let key ← need "key" parts.key
      let value ← need "value" parts.item
      .ok (.map key value note)
  | .list => do
      let item ← need "value" parts.item
      .ok (.list item note)
  | .tuple => do
      let items ← need "fields" parts.items
      .ok (.tuple items note)
  | .letIn => do
      let bindings ← need "bindings" parts.bindings
      let body ← need "t" parts.body
      .ok (.letIn bindings body note)
  | .ref => do
      let name ← need "name" parts.name
      .ok (.ref name note)

/-- The value under `meta`, which may stand once. -/
def noteOf (members : List (String × Value)) : Except ShapeFault (Option Value) :=
  match members.filter fun member => member.1 == "meta" with
  | [] => .ok none
  | [(_, v)] => .ok (some v.merged)
  | _ => .error (.duplicateField "meta")

mutual

/-- The type that a value describes. -/
def ofValue : Value → Except ShapeFault Ty
  | .object members => do
      let note ← noteOf members
      let kind ← Kind.ofMembers none members
      let parts ← partsOf kind members {}
      build kind parts note
  | v => .error (.invalidType (Found.ofValue v) "struct Type")

/-- The types of an array. -/
def listOf : Value → Except ShapeFault (List Ty)
  | .array items => ofItems items
  | v => .error (.invalidType (Found.ofValue v) "a sequence")

/-- The named types of an object. -/
def bindingsOf : Value → Except ShapeFault Bindings
  | .object members => do
      let named ← ofMembers members
      .ok (Entries.ofList named)
  | v => .error (.invalidType (Found.ofValue v) "a map")

/-- The type of every item. -/
def ofItems : List Value → Except ShapeFault (List Ty)
  | [] => .ok []
  | v :: rest => do
      let t ← ofValue v
      let ts ← ofItems rest
      .ok (t :: ts)

/-- The type of every member. -/
def ofMembers : List (String × Value) → Except ShapeFault (List (String × Ty))
  | [] => .ok []
  | (name, v) :: rest => do
      let t ← ofValue v
      let ts ← ofMembers rest
      .ok ((name, t) :: ts)

/-- The parts of a form, read in the order of the members. -/
def partsOf (kind : Kind) : List (String × Value) → Parts → Except ShapeFault Parts
  | [], parts => .ok parts
  | (name, v) :: rest, parts =>
      match kind, name with
      | .basic, "sub" => do
          once name parts.sub
          let sub ← Basic.ofPart v
          partsOf kind rest { parts with sub := some sub }
      | .literal, "value" => do
          once name parts.value
          partsOf kind rest { parts with value := some v.merged }
      | .union, "alts" => do
          once name parts.alts
          let alts ← listOf v
          if alts.isEmpty then .error (.invalidLength 0 "at least one alternative")
          else partsOf kind rest { parts with alts := some alts }
      | .struct, "fields" => do
          once name parts.fields
          let fields ← bindingsOf v
          partsOf kind rest { parts with fields := some fields }
      | .map, "key" => do
          once name parts.key
          let key ← ofValue v
          partsOf kind rest { parts with key := some key }
      | .map, "value" => do
          once name parts.item
          let item ← ofValue v
          partsOf kind rest { parts with item := some item }
      | .list, "value" => do
          once name parts.item
          let item ← ofValue v
          partsOf kind rest { parts with item := some item }
      | .tuple, "fields" => do
          once name parts.items
          let items ← listOf v
          partsOf kind rest { parts with items := some items }
      | .letIn, "bindings" => do
          once name parts.bindings
          let bindings ← bindingsOf v
          partsOf kind rest { parts with bindings := some bindings }
      | .letIn, "t" => do
          once name parts.body
          let body ← ofValue v
          partsOf kind rest { parts with body := some body }
      | .ref, "name" => do
          once name parts.name
          let text ← textOf v
          partsOf kind rest { parts with name := some text }
      | _, _ => partsOf kind rest parts

end

/-- The compact text of a type. -/
def text (t : Ty) : String :=
  t.toValue.compact

end Ty

end TypedJson
