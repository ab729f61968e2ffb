import TypedJson.Failure

/-!
# The failures in a failure

A failure of a union has the failures of its alternatives under it, and these may be
failures of unions again. `Failure.under` are those directly under it, and an induction
on failures has the hypothesis for them. `Failure.nodes` lists a failure and all that is under
it, each failure before those under it and chains from left to right.
-/

set_option autoImplicit false

namespace TypedJson.Failure

/-- The failures directly under a failure. -/
def under : Failure → List Failure
  | .unionExhausted _ _ chain => chain
  | _ => []

/-- Induction on failures, with the hypothesis for every failure directly under one. -/
@[elab_as_elim]
theorem induction {motive : Failure → Prop}
    (step : ∀ failure, (∀ below ∈ failure.under, motive below) → motive failure)
    (failure : Failure) : motive failure := by
  refine @Failure.rec motive (fun chain => ∀ below ∈ chain, motive below)
    (fun ty term => step (.mismatch ty term) (by simp [under]))
    (fun ty term => step (.literalMismatch ty term) (by simp [under]))
    (fun ty term chain hchain => step (.unionExhausted ty term chain) hchain)
    (fun name bindings => step (.unknownRef name bindings) (by simp [under]))
    (fun limit => step (.recursionLimit limit) (by simp [under])) (by simp) ?_ failure
  intro first rest hfirst hrest
  exact List.forall_mem_cons.2 ⟨hfirst, hrest⟩

mutual

/-- The failure and all failures under it. -/
def nodes : Failure → List Failure
  | .unionExhausted ty term chain => .unionExhausted ty term chain :: nodesIn chain
  | failure => [failure]

/-- The nodes of every failure of a chain. -/
def nodesIn : List Failure → List Failure
  | [] => []
  | failure :: rest => nodes failure ++ nodesIn rest

end

variable {node : Failure}

theorem nodesIn_eq_flatMap (chain : List Failure) : nodesIn chain = chain.flatMap nodes := by
  induction chain with
  | nil => rfl
  | cons failure rest ih => rw [nodesIn, ih, List.flatMap_cons]

theorem mem_nodesIn {chain : List Failure} :
    node ∈ nodesIn chain ↔ ∃ failure ∈ chain, node ∈ failure.nodes := by
  rw [nodesIn_eq_flatMap, List.mem_flatMap]

theorem chainLinesAt_eq_flatMap (level : Nat) (chain : List Failure) :
    chainLinesAt level chain = chain.flatMap (linesAt level) := by
  induction chain with
  | nil => rfl
  | cons failure rest ih => rw [chainLinesAt, ih, List.flatMap_cons]

/-- A failure comes before what is under it. -/
theorem nodes_eq (failure : Failure) : failure.nodes = failure :: failure.under.flatMap nodes := by
  cases failure with
  | unionExhausted ty term chain => rw [nodes, nodesIn_eq_flatMap, under]
  | _ => rfl

/-- The line of a failure comes before those of what is under it, which stand further right. -/
theorem linesAt_eq (failure : Failure) (level : Nat) :
    failure.linesAt level = ("".pushn ' ' (2 * level) ++ failure.message) ::
      failure.under.flatMap (linesAt (level + 1)) := by
  cases failure with
  | unionExhausted ty term chain => rw [linesAt, chainLinesAt_eq_flatMap, under]
  | _ => simp only [linesAt, under, List.flatMap_nil]

/-- A node is the failure itself, or a node of a failure in its chain. -/
theorem mem_nodes_unionExhausted {ty : Ty} {term : Option Value} {chain : List Failure} :
    node ∈ (unionExhausted ty term chain).nodes ↔
      node = .unionExhausted ty term chain ∨ ∃ under ∈ chain, node ∈ under.nodes := by
  rw [nodes, List.mem_cons, mem_nodesIn]

end TypedJson.Failure
