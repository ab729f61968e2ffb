import TypedJson.Proofs.Check.Levels
import TypedJson.Proofs.Value.Comparison

/-!
# Literals that agree

A literal accepts the values that agree with it. The order of members plays no part in that, so a
literal accepts every value that differs from it in order alone (`agrees_ignores_order`).

Two literals that agree with each other accept the same values except where numbers clash: an
integer that is rounded to a binary64 number agrees with that number, and so does every other
integer that is rounded to it, but the integers do not agree. `literal_interchange_iff` is the
exact condition, and it holds of all values and literals whose integers are below `2 ^ 53` in
magnitude; `literal_interchange_fails` is the least case in which it does not.
-/

set_option autoImplicit false

namespace TypedJson.Check

open Value

/-- A literal accepts exactly what agrees with it, at any depth and in any environment. -/
theorem checkGiven_literal_iff (checker : Checker) (room : Bool) (env : Env) (v expected : Value)
    (note : Option Value) :
    checker.checkGiven room env (some v) (.literal expected note) = .ok () ↔
      v.agrees expected = true := by
  rw [Checker.checkGiven_eq_reach]
  change (if v.agrees expected then Except.ok () else _) = .ok () ↔ _
  split
  · next h => simp [h]
  · next h => simp [h]

/-- The order of members plays no part in a comparison. Every value agrees with itself, two values
agree whichever comes first, and a value whose members are put in another order, at any depth,
agrees with what it agreed with before. So a literal accepts every value that it was reordered from,
at any depth and in any environment. -/
theorem agrees_ignores_order {a b : Value} (ha : a.Distinct) (hb : b.Distinct) :
    a.agrees a = true ∧ a.agrees b = b.agrees a ∧
    ∀ a', a.Reordered a' → a'.agrees b = a.agrees b ∧
      ∀ (checker : Checker) (room : Bool) (env : Env) (note : Option Value),
        checker.checkGiven room env (some a) (.literal a' note) = .ok () := by
  refine ⟨agrees_refl ha, agrees_comm ha hb, ?_⟩
  intro a' hreordered
  refine ⟨agrees_eq_of_reordered hreordered hb, ?_⟩
  intro checker room env note
  apply (checkGiven_literal_iff checker room env a a' note).2
  exact agrees_of_reordered (.refl ha) hreordered (agrees_refl ha)

/-- Members change places in an object and in an object inside an array of it, and the numbers are
integers on one side and binary64 numbers on the other. -/
theorem agrees_ignores_order_nested :
    let int (n : UInt64) : Value := .number (.ofUInt64 n)
    let float : Value := .number (.float ⟨false, 4503599627370496, -51, by decide⟩)
    let a : Value := .object
      [("x", int 1), ("y", .array [.object [("p", .null), ("q", int 2)], .bool true])]
    let a' : Value := .object
      [("y", .array [.object [("q", int 2), ("p", .null)], .bool true]), ("x", int 1)]
    let b : Value := .object
      [("x", int 1), ("y", .array [.object [("p", .null), ("q", float)], .bool true])]
    a.Distinct ∧ b.Distinct ∧ a.Reordered a' ∧ a.agrees b = true ∧ a'.agrees b = true ∧
    b.agrees a = true ∧
    Checker.checkGiven false ⟨0⟩ .empty (some a) (.literal a' none) = .ok () := by
  intro int float a a' b
  have ha : a.Distinct := by decide +kernel +zetaReduce
  have hb : b.Distinct := by decide +kernel +zetaReduce
  have hab : a.agrees b = true := by decide +kernel +zetaReduce
  have hinner : (Value.object [("p", .null), ("q", int 2)]).Reordered
      (.object [("q", int 2), ("p", .null)]) :=
    .object (by decide) (.swap _ _ _)
      (.cons (.intro "q" (.number _)) (.cons (.intro "p" .null) .nil))
  have hreordered : a.Reordered a' :=
    .object (by decide) (.swap _ _ _)
      (.cons (.intro "y" (.array (.cons hinner (.cons (.bool true) .nil))))
        (.cons (.intro "x" (.number _)) .nil))
  obtain ⟨-, hcomm, horder⟩ := agrees_ignores_order ha hb
  obtain ⟨hsame, haccepts⟩ := horder a' hreordered
  exact ⟨ha, hb, hreordered, hab, hsame.trans hab, hcomm.symm.trans hab,
    haccepts ⟨0⟩ false .empty none⟩

/-- Literals that agree accept the same values, unless numbers clash. Of two literals that agree,
the one accepts a value that the other accepts exactly when there is no place at which the value and
the literal have two different integers that are rounded to the same binary64 number. So with
integers below `2 ^ 53` in magnitude one literal can stand for the other. -/
theorem literal_interchange_iff {a b : Value} (ha : a.Distinct) (hb : b.Distinct)
    (hab : a.agrees b = true) (v : Value) (checker : Checker) (room : Bool) (env : Env)
    (note : Option Value) :
    let accepts (expected : Value) : Prop :=
      checker.checkGiven room env (some v) (.literal expected note) = .ok ()
    (accepts a → (accepts b ↔ ¬ v.Clashes b)) ∧
    (accepts b → (accepts a ↔ ¬ v.Clashes a)) ∧
    (v.SafeIntegers → a.SafeIntegers → b.SafeIntegers → (accepts a ↔ accepts b)) := by
  intro accepts
  have haccepts : ∀ expected, accepts expected ↔ v.agrees expected = true := by
    intro expected
    exact checkGiven_literal_iff checker room env v expected note
  simp only [haccepts]
  have hba : b.agrees a = true := agrees_symm ha hb hab
  have hforth : v.agrees a = true → (v.agrees b = true ↔ ¬ v.Clashes b) := by
    intro hva
    refine ⟨not_clashes_of_agrees, fun hclash => ?_⟩
    exact (agrees_trans_or hva hab).resolve_right hclash
  have hback : v.agrees b = true → (v.agrees a = true ↔ ¬ v.Clashes a) := by
    intro hvb
    refine ⟨not_clashes_of_agrees, fun hclash => ?_⟩
    exact (agrees_trans_or hvb hba).resolve_right hclash
  refine ⟨hforth, hback, ?_⟩
  intro hv hsafe hsafe'
  constructor
  · intro hva
    exact (hforth hva).2 fun hclash => hclash.not_safe ⟨hv, hsafe'⟩
  · intro hvb
    exact (hback hvb).2 fun hclash => hclash.not_safe ⟨hv, hsafe⟩

/-- The largest safe integer as an integer and as a binary64 number, inside objects whose members
come in different orders. -/
theorem literal_interchange_iff_largest :
    let int : Value := .number (.int 9007199254740991 (by decide))
    let float : Value := .number (.float ⟨false, 9007199254740991, 0, by decide⟩)
    let a : Value := .object [("x", int), ("y", .array [.null])]
    let b : Value := .object [("y", .array [.null]), ("x", float)]
    let v : Value := .object [("x", float), ("y", .array [.null])]
    a.Distinct ∧ b.Distinct ∧ a.agrees b = true ∧
    v.SafeIntegers ∧ a.SafeIntegers ∧ b.SafeIntegers ∧
    Checker.checkGiven true {} .empty (some v) (.literal a none) = .ok () ∧
    Checker.checkGiven true {} .empty (some v) (.literal b none) = .ok () := by
  intro int float a b v
  have ha : a.Distinct := by decide +kernel +zetaReduce
  have hb : b.Distinct := by decide +kernel +zetaReduce
  have hab : a.agrees b = true := by decide +kernel +zetaReduce
  have hv : v.SafeIntegers := by decide +kernel +zetaReduce
  have hsafe : a.SafeIntegers := by decide +kernel +zetaReduce
  have hsafe' : b.SafeIntegers := by decide +kernel +zetaReduce
  have haccepts : Checker.checkGiven true {} .empty (some v) (.literal a none) = .ok () := by
    decide +kernel +zetaReduce
  refine ⟨ha, hb, hab, hv, hsafe, hsafe', haccepts, ?_⟩
  have hinterchange := literal_interchange_iff ha hb hab v {} true .empty none
  exact (hinterchange.2.2 hv hsafe hsafe').1 haccepts

/-- The integer `2 ^ 53 + 1` agrees with the binary64 number `2 ^ 53`. Of these two literals, the
second accepts the integer `2 ^ 53` and the first does not. -/
theorem literal_interchange_fails :
    let a : Value := .number (.int 9007199254740993 (by decide))
    let b : Value := .number (.float ⟨false, 4503599627370496, 1, by decide⟩)
    let v : Value := .number (.int 9007199254740992 (by decide))
    a.Distinct ∧ b.Distinct ∧ v.Distinct ∧ a.agrees b = true ∧ b.agrees v = true ∧
    a.agrees v = false ∧
    Checker.checkIn {} .empty (some v) (.literal b none) = .ok () ∧
    Checker.checkIn {} .empty (some v) (.literal a none) =
      .error (.literalMismatch (.literal a none) (some v)) := by
  decide +kernel

end TypedJson.Check
