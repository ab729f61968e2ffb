import TypedJson.Value.Printer

/-!
# Types

A type is a term that describes values. Recursion is by name: `letIn` binds names
and `ref` uses them, so a term is a finite tree. Every term may carry a note, a
value of its own that checking never looks at.
-/

set_option autoImplicit false

namespace TypedJson

/-- The basic kinds of values; `void` is the kind of a value that is missing. -/
inductive Basic where
  | void
  | null
  | bool
  | int
  | float
  | string
  deriving DecidableEq, Repr

namespace Basic

/-- All basic kinds, in order. -/
def all : List Basic :=
  [.void, .null, .bool, .int, .float, .string]

/-- The name of a basic kind. -/
def name : Basic → String
  | .void => "void"
  | .null => "null"
  | .bool => "bool"
  | .int => "int"
  | .float => "float"
  | .string => "string"

/-- The basic kind with a name. -/
def ofName? (name : String) : Option Basic :=
  all.find? fun basic => basic.name == name

end Basic

/-- A type term. The last field of each form is its note. -/
inductive Ty where
  | basic (sub : Basic) (note : Option Value)
  | literal (value : Value) (note : Option Value)
  | union (alts : List Ty) (note : Option Value)
  | struct (fields : List (String × Ty)) (note : Option Value)
  | map (key value : Ty) (note : Option Value)
  | list (item : Ty) (note : Option Value)
  | tuple (items : List Ty) (note : Option Value)
  | letIn (bindings : List (String × Ty)) (body : Ty) (note : Option Value)
  | ref (name : String) (note : Option Value)

/-- Named types, in order. -/
abbrev Bindings := Entries Ty

namespace Ty

/-- The note of a term. -/
def note : Ty → Option Value
  | .basic _ note | .literal _ note | .union _ note | .struct _ note | .map _ _ note
  | .list _ note | .tuple _ note | .letIn _ _ note | .ref _ note => note

/-- The same term with another note. -/
def withNote (note : Option Value) : Ty → Ty
  | .basic sub _ => .basic sub note
  | .literal value _ => .literal value note
  | .union alts _ => .union alts note
  | .struct fields _ => .struct fields note
  | .map key value _ => .map key value note
  | .list item _ => .list item note
  | .tuple items _ => .tuple items note
  | .letIn bindings body _ => .letIn bindings body note
  | .ref name _ => .ref name note

/-- A value that may be missing. -/
def maybe (t : Ty) : Ty :=
  .union [t, .basic .void none] none

/-- The type of a missing value, whatever its note. -/
def isVoid : Ty → Bool
  | .basic .void _ => true
  | _ => false

mutual

/-- Equality of types is decidable. -/
def decEq : (a b : Ty) → Decidable (a = b)
  | .basic a n, .basic b m =>
      if h : a = b ∧ n = m then isTrue (by rw [h.1, h.2]) else isFalse (by simpa using h)
  | .literal a n, .literal b m =>
      if h : a = b ∧ n = m then isTrue (by rw [h.1, h.2]) else isFalse (by simpa using h)
  | .union a n, .union b m =>
      match decEqList a b with
      | isTrue h =>
          if h' : n = m then isTrue (by rw [h, h']) else isFalse (by simp [h'])
      | isFalse h => isFalse (by simp [h])
  | .struct a n, .struct b m =>
      match decEqNamed a b with
      | isTrue h =>
          if h' : n = m then isTrue (by rw [h, h']) else isFalse (by simp [h'])
      | isFalse h => isFalse (by simp [h])
  | .map k a n, .map l b m =>
      match decEq k l, decEq a b with
      | isTrue hk, isTrue h =>
          if h' : n = m then isTrue (by rw [hk, h, h']) else isFalse (by simp [h'])
      | isFalse h, _ => isFalse (by simp [h])
      | _, isFalse h => isFalse (by simp [h])
  | .list a n, .list b m =>
      match decEq a b with
      | isTrue h =>
          if h' : n = m then isTrue (by rw [h, h']) else isFalse (by simp [h'])
      | isFalse h => isFalse (by simp [h])
  | .tuple a n, .tuple b m =>
      match decEqList a b with
      | isTrue h =>
          if h' : n = m then isTrue (by rw [h, h']) else isFalse (by simp [h'])
      | isFalse h => isFalse (by simp [h])
  | .letIn k a n, .letIn l b m =>
      match decEqNamed k l, decEq a b with
      | isTrue hk, isTrue h =>
          if h' : n = m then isTrue (by rw [hk, h, h']) else isFalse (by simp [h'])
      | isFalse h, _ => isFalse (by simp [h])
      | _, isFalse h => isFalse (by simp [h])
  | .ref a n, .ref b m =>
      if h : a = b ∧ n = m then isTrue (by rw [h.1, h.2]) else isFalse (by simpa using h)
  | .basic .., .literal .. | .basic .., .union .. | .basic .., .struct .. | .basic .., .map ..
  | .basic .., .list .. | .basic .., .tuple .. | .basic .., .letIn .. | .basic .., .ref ..
  | .literal .., .basic .. | .literal .., .union .. | .literal .., .struct ..
  | .literal .., .map .. | .literal .., .list .. | .literal .., .tuple ..
  | .literal .., .letIn .. | .literal .., .ref ..
  | .union .., .basic .. | .union .., .literal .. | .union .., .struct .. | .union .., .map ..
  | .union .., .list .. | .union .., .tuple .. | .union .., .letIn .. | .union .., .ref ..
  | .struct .., .basic .. | .struct .., .literal .. | .struct .., .union .. | .struct .., .map ..
  | .struct .., .list .. | .struct .., .tuple .. | .struct .., .letIn .. | .struct .., .ref ..
  | .map .., .basic .. | .map .., .literal .. | .map .., .union .. | .map .., .struct ..
  | .map .., .list .. | .map .., .tuple .. | .map .., .letIn .. | .map .., .ref ..
  | .list .., .basic .. | .list .., .literal .. | .list .., .union .. | .list .., .struct ..
  | .list .., .map .. | .list .., .tuple .. | .list .., .letIn .. | .list .., .ref ..
  | .tuple .., .basic .. | .tuple .., .literal .. | .tuple .., .union .. | .tuple .., .struct ..
  | .tuple .., .map .. | .tuple .., .list .. | .tuple .., .letIn .. | .tuple .., .ref ..
  | .letIn .., .basic .. | .letIn .., .literal .. | .letIn .., .union .. | .letIn .., .struct ..
  | .letIn .., .map .. | .letIn .., .list .. | .letIn .., .tuple .. | .letIn .., .ref ..
  | .ref .., .basic .. | .ref .., .literal .. | .ref .., .union .. | .ref .., .struct ..
  | .ref .., .map .. | .ref .., .list .. | .ref .., .tuple .. | .ref .., .letIn .. =>
      isFalse (by simp)

/-- Equality of lists of types is decidable. -/
def decEqList : (a b : List Ty) → Decidable (a = b)
  | [], [] => isTrue rfl
  | a :: as, b :: bs =>
      match decEq a b, decEqList as bs with
      | isTrue h, isTrue h' => isTrue (by rw [h, h'])
      | isFalse h, _ => isFalse (by simp [h])
      | _, isFalse h => isFalse (by simp [h])
  | [], _ :: _ | _ :: _, [] => isFalse (by simp)

/-- Equality of named types is decidable. -/
def decEqNamed : (a b : List (String × Ty)) → Decidable (a = b)
  | [], [] => isTrue rfl
  | (k, a) :: as, (l, b) :: bs =>
      if hk : k = l then
        match decEq a b, decEqNamed as bs with
        | isTrue h, isTrue h' => isTrue (by rw [hk, h, h'])
        | isFalse h, _ => isFalse (by simp [h])
        | _, isFalse h => isFalse (by simp [h])
      else isFalse (by simp [hk])
  | [], _ :: _ | _ :: _, [] => isFalse (by simp)

end

instance : DecidableEq Ty := decEq

/-- How messages name a type. -/
def display : Ty → String
  | .basic sub _ => sub.name
  | .literal value _ => "literal " ++ value.compact
  | .union alts _ => "union of " ++ toString alts.length
  | .struct fields _ =>
      "struct \x7b" ++ String.intercalate ", " (Entries.names fields) ++ "\x7d"
  | .map key value _ => "map " ++ key.display ++ " -> " ++ value.display
  | .list item _ => "list of " ++ item.display
  | .tuple items _ => "tuple of " ++ toString items.length
  | .letIn bindings body _ =>
      "let " ++ String.intercalate ", " (Entries.names bindings) ++ " in " ++ body.display
  | .ref name _ => "ref " ++ name

end Ty

end TypedJson
