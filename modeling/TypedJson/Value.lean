import TypedJson.Entries
import TypedJson.Number

/-!
# Values

`Value` is the data that types describe: what a JSON text stands for. Objects keep
the order of their members. The type itself allows an object to repeat a name,
which is what a text can do; `Value.merged` gives every name one member, and
`Value.Distinct` says that no object repeats one.

`Value.agrees` is the equality that literals are compared with: numbers by what
they stand for, arrays item by item, objects by name whatever the order.
-/

set_option autoImplicit false

namespace TypedJson

/-- A JSON value. -/
inductive Value where
  | null
  | bool (b : Bool)
  | number (n : Number)
  | string (s : String)
  | array (items : List Value)
  | object (members : List (String × Value))

instance : Inhabited Value := ⟨.null⟩

namespace Value

mutual

/-- Equality of values is decidable. -/
def decEq : (a b : Value) → Decidable (a = b)
  | .null, .null => isTrue rfl
  | .bool a, .bool b => if h : a = b then isTrue (h ▸ rfl) else isFalse (by simp [h])
  | .number a, .number b => if h : a = b then isTrue (h ▸ rfl) else isFalse (by simp [h])
  | .string a, .string b => if h : a = b then isTrue (h ▸ rfl) else isFalse (by simp [h])
  | .array a, .array b =>
      match decEqItems a b with
      | isTrue h => isTrue (h ▸ rfl)
      | isFalse h => isFalse (by simp [h])
  | .object a, .object b =>
      match decEqMembers a b with
      | isTrue h => isTrue (h ▸ rfl)
      | isFalse h => isFalse (by simp [h])
  | .null, .bool _ | .null, .number _ | .null, .string _ | .null, .array _ | .null, .object _
  | .bool _, .null | .bool _, .number _ | .bool _, .string _ | .bool _, .array _
  | .bool _, .object _ | .number _, .null | .number _, .bool _ | .number _, .string _
  | .number _, .array _ | .number _, .object _ | .string _, .null | .string _, .bool _
  | .string _, .number _ | .string _, .array _ | .string _, .object _ | .array _, .null
  | .array _, .bool _ | .array _, .number _ | .array _, .string _ | .array _, .object _
  | .object _, .null | .object _, .bool _ | .object _, .number _ | .object _, .string _
  | .object _, .array _ => isFalse (by simp)

/-- Equality of lists of values is decidable. -/
def decEqItems : (a b : List Value) → Decidable (a = b)
  | [], [] => isTrue rfl
  | a :: as, b :: bs =>
      match decEq a b, decEqItems as bs with
      | isTrue h, isTrue h' => isTrue (h ▸ h' ▸ rfl)
      | isFalse h, _ => isFalse (by simp [h])
      | _, isFalse h => isFalse (by simp [h])
  | [], _ :: _ | _ :: _, [] => isFalse (by simp)

/-- Equality of lists of members is decidable. -/
def decEqMembers : (a b : List (String × Value)) → Decidable (a = b)
  | [], [] => isTrue rfl
  | (k, a) :: as, (l, b) :: bs =>
      if hk : k = l then
        match decEq a b, decEqMembers as bs with
        | isTrue h, isTrue h' => isTrue (hk ▸ h ▸ h' ▸ rfl)
        | isFalse h, _ => isFalse (by simp [h])
        | _, isFalse h => isFalse (by simp [h])
      else isFalse (by simp [hk])
  | [], _ :: _ | _ :: _, [] => isFalse (by simp)

end

instance : DecidableEq Value := decEq

mutual

/-- Every name of every object gets one member: the last one, at the place of the
first. -/
def merged : Value → Value
  | .array items => .array (mergedItems items)
  | .object members => .object (Entries.ofList (mergedMembers members))
  | v => v

/-- `merged` on every item. -/
def mergedItems : List Value → List Value
  | [] => []
  | v :: rest => merged v :: mergedItems rest

/-- `merged` on every member, names left as they are. -/
def mergedMembers : List (String × Value) → List (String × Value)
  | [] => []
  | (name, v) :: rest => (name, merged v) :: mergedMembers rest

end

mutual

/-- No object in the value repeats a name. -/
def Distinct : Value → Prop
  | .array items => DistinctItems items
  | .object members => Entries.Distinct members ∧ DistinctMembers members
  | _ => True

/-- `Distinct` for every item. -/
def DistinctItems : List Value → Prop
  | [] => True
  | v :: rest => Distinct v ∧ DistinctItems rest

/-- `Distinct` for the value of every member. -/
def DistinctMembers : List (String × Value) → Prop
  | [] => True
  | (_, v) :: rest => Distinct v ∧ DistinctMembers rest

end

mutual

/-- The number of arrays and objects around the innermost point of a value. -/
def nesting : Value → Nat
  | .array items => nestingItems items + 1
  | .object members => nestingMembers members + 1
  | _ => 0

/-- The greatest `nesting` of the items. -/
def nestingItems : List Value → Nat
  | [] => 0
  | v :: rest => max (nesting v) (nestingItems rest)

/-- The greatest `nesting` of the members. -/
def nestingMembers : List (String × Value) → Nat
  | [] => 0
  | (_, v) :: rest => max (nesting v) (nestingMembers rest)

end

mutual

/-- The equality of literals: numbers by what they stand for, arrays item by item,
objects of the same size by name. -/
def agrees : Value → Value → Bool
  | .null, .null => true
  | .bool a, .bool b => a == b
  | .number a, .number b => a.sameNumber b
  | .string a, .string b => a == b
  | .array as, .array bs => agreesItems as bs
  | .object as, .object bs => as.length == bs.length && agreesMembers as bs
  | _, _ => false

/-- Two lists of the same length that agree item by item. -/
def agreesItems : List Value → List Value → Bool
  | [], [] => true
  | a :: as, b :: bs => agrees a b && agreesItems as bs
  | _, _ => false

/-- Every member agrees with the one that the second list has under its name. -/
def agreesMembers : List (String × Value) → List (String × Value) → Bool
  | [], _ => true
  | (name, a) :: rest, bs =>
      match Entries.find? name bs with
      | some b => agrees a b && agreesMembers rest bs
      | none => false

end

end Value

end TypedJson
