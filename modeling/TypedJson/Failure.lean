import TypedJson.Type.Wire

/-!
# Failures of a check

A failure says which type refused which value; a missing value is `none`. A union
that refuses a value keeps the failure of every alternative, in order. Running out
of levels is the one failure that is fatal: it says nothing about the value.
-/

set_option autoImplicit false

namespace TypedJson

/-- Why a value does not conform to a type. -/
inductive Failure where
  | mismatch (ty : Ty) (term : Option Value)
  | literalMismatch (ty : Ty) (term : Option Value)
  | unionExhausted (ty : Ty) (term : Option Value) (chain : List Failure)
  | unknownRef (name : String) (bindings : Bindings)
  | recursionLimit (limit : UInt64)

namespace Failure

mutual

/-- Equality of failures is decidable. -/
def decEq : (a b : Failure) → Decidable (a = b)
  | .mismatch t v, .mismatch u w =>
      if h : t = u ∧ v = w then isTrue (by rw [h.1, h.2]) else isFalse (by simpa using h)
  | .literalMismatch t v, .literalMismatch u w =>
      if h : t = u ∧ v = w then isTrue (by rw [h.1, h.2]) else isFalse (by simpa using h)
  | .unionExhausted t v as, .unionExhausted u w bs =>
      match decEqChain as bs with
      | isTrue h =>
          if h' : t = u ∧ v = w then isTrue (by rw [h, h'.1, h'.2])
          else isFalse (by simpa [h] using h')
      | isFalse h => isFalse (by simp [h])
  | .unknownRef n b, .unknownRef m c =>
      if h : n = m ∧ b = c then isTrue (by rw [h.1, h.2]) else isFalse (by simpa using h)
  | .recursionLimit a, .recursionLimit b =>
      if h : a = b then isTrue (by rw [h]) else isFalse (by simp [h])
  | .mismatch .., .literalMismatch .. | .mismatch .., .unionExhausted ..
  | .mismatch .., .unknownRef .. | .mismatch .., .recursionLimit ..
  | .literalMismatch .., .mismatch .. | .literalMismatch .., .unionExhausted ..
  | .literalMismatch .., .unknownRef .. | .literalMismatch .., .recursionLimit ..
  | .unionExhausted .., .mismatch .. | .unionExhausted .., .literalMismatch ..
  | .unionExhausted .., .unknownRef .. | .unionExhausted .., .recursionLimit ..
  | .unknownRef .., .mismatch .. | .unknownRef .., .literalMismatch ..
  | .unknownRef .., .unionExhausted .. | .unknownRef .., .recursionLimit ..
  | .recursionLimit .., .mismatch .. | .recursionLimit .., .literalMismatch ..
  | .recursionLimit .., .unionExhausted .. | .recursionLimit .., .unknownRef .. =>
      isFalse (by simp)

/-- Equality of chains of failures is decidable. -/
def decEqChain : (as bs : List Failure) → Decidable (as = bs)
  | [], [] => isTrue rfl
  | a :: as, b :: bs =>
      match decEq a b, decEqChain as bs with
      | isTrue h, isTrue h' => isTrue (by rw [h, h'])
      | isFalse h, _ => isFalse (by simp [h])
      | _, isFalse h => isFalse (by simp [h])
  | [], _ :: _ | _ :: _, [] => isFalse (by simp)

end

instance : DecidableEq Failure := decEq

/-- The value that was refused, when there is one. -/
def term : Failure → Option Value
  | .mismatch _ term | .literalMismatch _ term | .unionExhausted _ term _ => term
  | .unknownRef .. | .recursionLimit .. => none

/-- The check was given up, whatever the value. -/
def isFatal : Failure → Bool
  | .recursionLimit _ => true
  | _ => false

/-- A failure in one line. -/
def message : Failure → String
  | .mismatch ty term => "cannot coerce " ++ Value.describe term ++ " into " ++ ty.display
  | .literalMismatch ty term => Value.describe term ++ " is not " ++ ty.display
  | .unionExhausted ty term _ =>
      "no alternative of " ++ ty.display ++ " matched " ++ Value.describe term
  | .unknownRef name _ => "unknown ref `" ++ name ++ "`"
  | .recursionLimit limit => "recursion limit of " ++ toString limit.toNat ++ " exceeded"

mutual

/-- A failure with the failures under it, each indented by two spaces a level. -/
def linesAt (level : Nat) : Failure → List String
  | .unionExhausted ty term chain =>
      ("".pushn ' ' (2 * level) ++ message (.unionExhausted ty term chain)) ::
        chainLinesAt (level + 1) chain
  | .mismatch ty term => ["".pushn ' ' (2 * level) ++ message (.mismatch ty term)]
  | .literalMismatch ty term => ["".pushn ' ' (2 * level) ++ message (.literalMismatch ty term)]
  | .unknownRef name bindings => ["".pushn ' ' (2 * level) ++ message (.unknownRef name bindings)]
  | .recursionLimit limit => ["".pushn ' ' (2 * level) ++ message (.recursionLimit limit)]

/-- The failures of a chain, one after the other. -/
def chainLinesAt (level : Nat) : List Failure → List String
  | [] => []
  | failure :: rest => linesAt level failure ++ chainLinesAt level rest

end

/-- A failure with the failures under it; each ends in a line feed. -/
def render (failure : Failure) : String :=
  String.join ((failure.linesAt 0).map fun line => line ++ "\n")

/-- The members of a refused value and its type. -/
def subject (ty : Ty) (term : Option Value) : List (String × Value) :=
  ("type", ty.toValue) ::
    match term with
    | some v => [("term", v)]
    | none => []

mutual

/-- A failure as a value. -/
def toValue : Failure → Value
  | .mismatch ty term =>
      .object (("error", .string "cannot coerce term into type") :: subject ty term)
  | .literalMismatch ty term =>
      .object (("error", .string "literal mismatch") :: subject ty term)
  | .unionExhausted ty term chain =>
      .object (("error", .string "union exhausted") ::
        (subject ty term ++ [("chain", .array (chainValues chain))]))
  | .unknownRef name bindings =>
      .object [("error", .string "unknown ref"), ("ref_name", .string name),
        ("bindings", .object (Ty.toMembers bindings))]
  | .recursionLimit limit =>
      .object [("error", .string "recursion limit exceeded"),
        ("limit", .number (.ofUInt64 limit))]

/-- The failures of a chain as values. -/
def chainValues : List Failure → List Value
  | [] => []
  | failure :: rest => toValue failure :: chainValues rest

end

end Failure

end TypedJson
