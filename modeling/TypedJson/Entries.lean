/-!
# Named entries in order

An object, a struct type and a set of bindings are all lists of named entries
whose order is kept. Writing a name that is already present replaces its entry
where it stands; a new name goes to the end.
-/

set_option autoImplicit false

namespace TypedJson

/-- Named entries, in the order in which the names were first written. -/
abbrev Entries (α : Type) := List (String × α)

namespace Entries

variable {α β : Type}

/-- The entry under a name: the first one, if a name is repeated. -/
def find? (name : String) : Entries α → Option α
  | [] => none
  | (key, a) :: rest => if key = name then some a else find? name rest

/-- Writes an entry: in place when the name is present, at the end otherwise. -/
def insert (name : String) (a : α) : Entries α → Entries α
  | [] => [(name, a)]
  | (key, b) :: rest =>
      if key = name then (key, a) :: rest else (key, b) :: insert name a rest

/-- Writes all entries of the second list, in order, into the first. -/
def insertAll (into : Entries α) : Entries α → Entries α
  | [] => into
  | (key, a) :: rest => insertAll (insert key a into) rest

/-- Entries from a list that may repeat names: the last entry of a name wins, at
the place of the first. -/
def ofList (entries : List (String × α)) : Entries α :=
  insertAll [] entries

/-- The names, in order. -/
def names (entries : Entries α) : List String :=
  entries.map Prod.fst

/-- No name is repeated. -/
def Distinct (entries : Entries α) : Prop :=
  (names entries).Nodup

instance (entries : Entries α) : Decidable (Distinct entries) :=
  inferInstanceAs (Decidable (names entries).Nodup)

end Entries

end TypedJson
