import Mathlib.Data.List.ReduceOption
import TypedJson.Proofs.Check.Flattening

/-!
# Snapshots of environments

An environment is built link by link, and a link may have no scope at all (`Env.ofChain`). Looking
for a name goes through the links from the innermost one outwards and stops at the first that
binds it. A snapshot goes the other way: the scopes are written from the outermost one inwards, and
a name that is bound again is written in its place.

Both find the same (`Env.snapshot_ofChain`). The names of a snapshot are the names of all scopes
with later repetitions dropped (`Env.names_flatten`): what is written first decides the place, and
what is written last decides the meaning.
-/

set_option autoImplicit false

namespace TypedJson

namespace Env

/-! ## Names in order -/

/-- The names of flattened scopes come in the order in which they first appear from the
outermost scope inwards. The induction adds an innermost scope, whose names come last. -/
theorem names_flatten (scopes : List Bindings) : Entries.names (flatten scopes) =
    (scopes.reverse.flatMap Entries.names).eraseDups := by
  induction scopes with
  | nil => rfl
  | cons scope outer ih =>
      -- Which names are new depends only on which are there, not on how often they came up.
      have hnew : (Entries.names scope).removeAll (Entries.names (flatten outer)) =
          (Entries.names scope).removeAll (outer.reverse.flatMap Entries.names) := by
        apply List.filter_congr
        intro name _
        simp [ih]
      rw [flatten, Entries.names_insertAll, hnew, ih, ← List.eraseDups_append, List.reverse_cons,
        List.flatMap_append, List.flatMap_singleton]

/-! ## Chains -/

/-- The environment of a chain of links, the innermost first. A link without a scope binds
nothing. -/
def ofChain : List (Option Bindings) → Env
  | [] => empty
  | none :: outer => ofChain outer
  | some scope :: outer => (ofChain outer).extend scope

variable {chain : List (Option Bindings)}

theorem scopes_ofChain : (ofChain chain).scopes = chain.reduceOption := by
  induction chain with
  | nil => rfl
  | cons link outer ih =>
      cases link with
      | none => exact ih
      | some scope => rw [ofChain, extend, ih, List.reduceOption_cons_of_some]

/-- The innermost link that binds a name decides. -/
theorem lookup_ofChain (name : String) : (ofChain chain).lookup name =
    chain.findSome? fun link => link.bind (Entries.find? name) := by
  induction chain with
  | nil => rfl
  | cons link outer ih =>
      rw [List.findSome?_cons]
      cases link with
      | none => exact ih
      | some scope =>
          change lookupIn name (scope :: (ofChain outer).scopes) = _
          rw [lookupIn, Option.bind_some]
          cases Entries.find? name scope with
          | some meaning => rfl
          | none => exact ih

/-- A snapshot says of each name what looking for it says. In a chain whose scopes bind no name
twice, a name is in the snapshot exactly when it is found from the innermost link outwards, and with
the same meaning. No name is repeated, and the names come in the order in which they first appear
when the scopes are read from the outermost one inwards. -/
theorem snapshot_ofChain (chain : List (Option Bindings))
    (hdistinct : ∀ scope, some scope ∈ chain → Entries.Distinct scope) :
    let env := ofChain chain
    (∀ name, env.lookup name = chain.findSome? fun link => link.bind (Entries.find? name)) ∧
      (∀ name meaning, (name, meaning) ∈ env.snapshot ↔ env.lookup name = some meaning) ∧
      (∀ name, name ∈ Entries.names env.snapshot ↔ (env.lookup name).isSome = true) ∧
      (Entries.names env.snapshot).Nodup ∧
      Entries.names env.snapshot =
        (chain.reverse.reduceOption.flatMap Entries.names).eraseDups := by
  intro env
  have hscopes : ∀ scope ∈ env.scopes, Entries.Distinct scope := by
    intro scope hscope
    rw [scopes_ofChain, List.reduceOption_mem_iff] at hscope
    exact hdistinct scope hscope
  have hfind : ∀ name, Entries.find? name env.snapshot = env.lookup name :=
    find?_flatten hscopes
  have hnodup : Entries.Distinct env.snapshot := distinct_flatten env.scopes
  refine ⟨lookup_ofChain, ?_, ?_, hnodup, ?_⟩
  · intro name meaning
    rw [← hfind name]
    exact ⟨Entries.find?_of_mem hnodup, Entries.mem_of_find?⟩
  · intro name
    rw [← hfind name, Option.isSome_iff_ne_none, Ne, Entries.find?_eq_none_iff, not_not]
  · have hreverse : chain.reverse.reduceOption = env.scopes.reverse := by
      rw [scopes_ofChain]
      exact List.filterMap_reverse
    rw [hreverse]
    exact names_flatten env.scopes

/-- Six links, of which two have no scope and one an empty one. The name `a` is bound three times:
it has the place of its first binding and the meaning of its last. -/
theorem snapshot_ofChain_shadowed :
    let int : Ty := .basic .int none
    let text : Ty := .basic .string none
    let flag : Ty := .basic .bool none
    let chain : List (Option Bindings) :=
      [some [("d", int), ("a", text)], none, some [], some [("c", flag), ("a", flag), ("b", flag)],
        none, some [("b", int), ("a", int)]]
    (∀ scope, some scope ∈ chain → Entries.Distinct scope) ∧
      (ofChain chain).snapshot = [("b", flag), ("a", text), ("c", flag), ("d", int)] ∧
      (ofChain chain).lookup "a" = some text ∧ ("a", text) ∈ (ofChain chain).snapshot ∧
      (ofChain chain).lookup "e" = none ∧
      Entries.names (ofChain chain).snapshot =
        ["b", "a", "c", "a", "b", "d", "a"].eraseDups := by
  intro int text flag chain
  have hdistinct : ∀ scope, some scope ∈ chain → Entries.Distinct scope := by
    intro scope hscope
    simp only [chain, List.mem_cons, List.not_mem_nil, Option.some.injEq, reduceCtorEq, false_or,
      or_false] at hscope
    rcases hscope with rfl | rfl | rfl | rfl
    all_goals decide
  obtain ⟨-, hmem, -, -, hnames⟩ := snapshot_ofChain chain hdistinct
  have hfound : (ofChain chain).lookup "a" = some text := by decide +zetaReduce
  exact ⟨hdistinct, by decide +zetaReduce, hfound, (hmem "a" text).2 hfound,
    by decide +zetaReduce, hnames⟩

end Env

end TypedJson
