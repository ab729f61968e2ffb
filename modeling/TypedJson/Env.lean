import TypedJson.Type

/-!
# Environments

An environment is a stack of scopes, each a set of named types. A name means what
the innermost scope that has it says. `Env.snapshot` flattens the stack: names come
in the order in which they first appear from the outermost scope inwards, each with
its innermost meaning.
-/

set_option autoImplicit false

namespace TypedJson

/-- The scopes in force, the innermost first. -/
structure Env where
  scopes : List Bindings

namespace Env

/-- No scope at all. -/
def empty : Env := ⟨[]⟩

/-- One scope. -/
def root (scope : Bindings) : Env := ⟨[scope]⟩

/-- A further scope inside the others. -/
def extend (env : Env) (scope : Bindings) : Env :=
  ⟨scope :: env.scopes⟩

/-- The meaning of a name in a stack of scopes. -/
def lookupIn (name : String) : List Bindings → Option Ty
  | [] => none
  | scope :: outer =>
      match Entries.find? name scope with
      | some t => some t
      | none => lookupIn name outer

/-- The meaning of a name. -/
def lookup (env : Env) (name : String) : Option Ty :=
  lookupIn name env.scopes

/-- A stack of scopes as one. -/
def flatten : List Bindings → Bindings
  | [] => []
  | scope :: outer => Entries.insertAll (flatten outer) scope

/-- All names in force with their meaning. -/
def snapshot (env : Env) : Bindings :=
  flatten env.scopes

end Env

end TypedJson
