import TypedJson.Reader.Value
import TypedJson.Type.Wire

/-!
# Reading types from texts

A type in a text is an object. The object is read as it stands, and then taken for
a type: whatever is wrong with the term, or with a term inside it, is reported at
the end of the outermost object. Only a second note of that object is reported at
once, where its key ends.
-/

set_option autoImplicit false

namespace TypedJson.Reader

/-- The fault of finding something else than expected: after a word, a number or a
quoted text, and in front of an array or an object. -/
def mismatch (expected : String) (s : List Char) : Fault :=
  let found (what : Found) (rest : List Char) : Fault :=
    .shape (.invalidType what expected) rest
  let after (reading : Except Fault (Taken Found)) : Fault :=
    match reading with
    | .ok (what, rest) => found what rest
    | .error fault => fault
  match s with
  | [] => .next .expectedValue []
  | 'n' :: t => after ((word ['u', 'l', 'l'] t).map fun rest => (.null, rest))
  | 't' :: t => after ((word ['r', 'u', 'e'] t).map fun rest => (.bool true, rest))
  | 'f' :: t => after ((word ['a', 'l', 's', 'e'] t).map fun rest => (.bool false, rest))
  | '"' :: t => after ((quoted t).map fun (text, rest) => (.string text, rest))
  | '-' :: t => after ((number true t).map fun (n, rest) => (.number n, rest))
  | '[' :: _ => found .sequence s
  | '\x7b' :: _ => found .map s
  | c :: _ =>
      if isDigit c then after ((number false s).map fun (n, rest) => (.number n, rest))
      else .next .expectedValue s

/-- A quoted text. -/
def text (s : List Char) : Except Fault (Taken String) :=
  match skipGap s with
  | [] => .error (.here .endInValue [])
  | '"' :: t => quoted t
  | t => .error (mismatch "a string" t)

variable {α : Type}

/-- An object, whose members are read by `inside` after the opening brace. -/
def object (expected : String) (room : Nat)
    (inside : (room : Nat) → List Char → Except Fault (Taken α)) (s : List Char) :
    Except Fault (Taken α) :=
  match skipGap s with
  | [] => .error (.here .endInValue [])
  | '\x7b' :: t =>
      match room with
      | 0 => .error (.next .nestedTooDeep ('\x7b' :: t))
      | room + 1 => inside room t
  | t => .error (mismatch expected t)

/-- An array of parts. -/
def list (part : (room : Nat) → List Char → Except Fault (Taken α)) (room : Nat)
    (s : List Char) : Except Fault (Taken (List α)) :=
  match skipGap s with
  | [] => .error (.here .endInValue [])
  | '[' :: t =>
      match room with
      | 0 => .error (.next .nestedTooDeep ('[' :: t))
      | room + 1 => items (part room) (t.length + 1) 0 t
  | t => .error (mismatch "a sequence" t)

/-- An object of parts, the last one of a name at the place of the first. -/
def entries (part : (room : Nat) → List Char → Except Fault (Taken α)) (room : Nat)
    (s : List Char) : Except Fault (Taken (Entries α)) :=
  object "a map" room (fun room t => do
    let (parts, rest) ← named (part room) t
    .ok (Entries.ofList parts, rest)) s

/-- Where an object is left when one of its members is refused after its key: past
the white space, and past a brace that closes the object there. -/
def leave (s : List Char) : List Char :=
  match skipGap s with
  | '\x7d' :: rest => rest
  | rest => rest

/-- The fault of a member that may not be there, after its key. -/
def refuse (fault : ShapeFault) (s : List Char) : Fault :=
  .shape fault (leave s)

/-- The members of a type's object, the last one first, and whether the note was
among them. -/
structure TermMembers where
  noted : Bool := false
  members : List (String × Value) := []

/-- One member of a type's object. -/
def termMember (room : Nat) (gathered : TermMembers) (key : String) (s : List Char) :
    Except Fault (Taken TermMembers) :=
  if key = "meta" && gathered.noted then .error (refuse (.duplicateField "meta") s)
  else do
    let (v, rest) ← memberValue (raw room) key s
    .ok (⟨gathered.noted || key = "meta", (key, v) :: gathered.members⟩, rest)

/-- A type. -/
def term (room : Nat) (s : List Char) : Except Fault (Taken Ty) :=
  object "struct Type" room (fun room t => do
    let (gathered, rest) ← members (termMember room) (t.length + 1) true {} t
    match Ty.ofValue (.object gathered.members.reverse) with
    | .ok ty => .ok (ty, rest)
    | .error fault => .error (.shape fault rest)) s

/-- The name of a basic kind, after its opening quote. -/
def basicName (s : List Char) : Except Fault (Taken Basic) := do
  let (name, rest) ← quoted s
  match Basic.ofName name with
  | .ok basic => .ok (basic, rest)
  | .error fault => .error (.shape fault rest)

/-- The null under the name of a basic kind. -/
def nothing (s : List Char) : Except Fault (List Char) :=
  match skipGap s with
  | [] => .error (.here .endInValue [])
  | 'n' :: t => word ['u', 'l', 'l'] t
  | t => .error (mismatch "unit" t)

/-- A basic kind: its name, or an object with that name and null under it. -/
def basic (s : List Char) : Except Fault (Taken Basic) :=
  match skipGap s with
  | [] => .error (.here .endInValue [])
  | '"' :: t => basicName t
  | '\x7b' :: t =>
      match skipGap t with
      | [] => .error (.here .endInObject [])
      | '"' :: t => do
          let (basic, t) ← basicName t
          let t ← colon t
          let t ← below (.key basic.name) (nothing t)
          match skipGap t with
          | [] => .error (.here .endInObject [])
          | '\x7d' :: rest => .ok (basic, rest)
          | rest => .error (.here .expectedValue rest)
      | '\x7d' :: rest => .error (.next .expectedValue ('\x7d' :: rest))
      | t => .error (.next .keyNotString t)
  | t => .error (.next .expectedValue t)

end TypedJson.Reader

namespace TypedJson

/-- The type of a whole text. -/
def Ty.parse (text : String) : Except ReadError Ty :=
  Reader.whole (Reader.term Reader.maxOpen) text

/-- The named types of a whole text. -/
def Bindings.parse (text : String) : Except ReadError Bindings :=
  Reader.whole (Reader.entries Reader.term Reader.maxOpen) text

end TypedJson
