import Mathlib.Data.Nat.Find
import TypedJson.Bootstrap
import TypedJson.Proofs.Check.Levels

/-!
# One depth decides whether a check is settled

For a value, a type and an environment there is at most one change as the greatest
depth grows: below some depth the check is given up at its limit, and from there on it
has one and the same settled result (`upTo_hasThreshold`). A greater depth therefore never
changes what a codec or the reader of schema documents has settled.
-/

set_option autoImplicit false

namespace TypedJson

namespace Check

/-- A check under growing limits: given up under each limit, or given up below some
depth and with one settled result from there on. -/
def HasThreshold (run : UInt64 → Except Failure Unit) : Prop :=
  (∀ limit, run limit = .error (.recursionLimit limit)) ∨
    ∃ (depth : UInt64) (result : Except Failure Unit), Settled result ∧
      (∀ limit, limit < depth → run limit = .error (.recursionLimit limit)) ∧
      ∀ limit, depth ≤ limit → run limit = result

theorem upTo_hasThreshold (env : Env) (term : Option Value) (ty : Ty) :
    HasThreshold fun limit => upTo limit env term ty := by
  classical
  by_cases hnever : ∀ limit, ¬ Settled (upTo limit env term ty)
  · exact Or.inl fun limit => upTo_of_not_settled (hnever limit)
  · -- The threshold is the least limit under which the check is settled.
    have hsome : ∃ n, ∃ limit : UInt64, limit.toNat = n ∧ Settled (upTo limit env term ty) := by
      simpa using hnever
    obtain ⟨depth, hdepth, hsettled⟩ := Nat.find_spec hsome
    refine Or.inr ⟨depth, upTo depth env term ty, hsettled, ?_, ?_⟩
    · intro limit hlt
      apply upTo_of_not_settled
      intro hless
      have hbelow : limit.toNat < Nat.find hsome := by
        rw [← hdepth]
        exact UInt64.lt_iff_toNat_lt.1 hlt
      exact Nat.find_min hsome hbelow ⟨limit, rfl, hless⟩
    · intro limit hle
      exact upTo_of_settled hle hsettled

end Check

open Check

namespace Checker

/-- Fewer levels need less room. -/
theorem hasRoom_of_le {small large : UInt64} (hle : small ≤ large)
    (hroom : hasRoom ⟨large⟩ = true) : hasRoom ⟨small⟩ = true := by
  have hdepth := UInt64.le_iff_toNat_le.1 hle
  have harea : workArea ⟨small⟩ ≤ workArea ⟨large⟩ := by
    simp only [workArea]
    omega
  have hlarge : workArea ⟨large⟩ ≤ memory := of_decide_eq_true hroom
  exact decide_eq_true (Nat.le_trans harea hlarge)

/-- A greater depth leaves a settled check as it is. -/
theorem check_of_settled {small large : UInt64} (hle : small ≤ large)
    (hroom : hasRoom ⟨large⟩ = true) {term : Option Value} {ty : Ty}
    (h : Settled (check ⟨small⟩ term ty)) : check ⟨large⟩ term ty = check ⟨small⟩ term ty := by
  simp only [check, checkIn, hroom, hasRoom_of_le hle hroom, checkGiven_true] at h ⊢
  exact upTo_of_settled hle h

end Checker

/-- A codec with a checker of the given depth. -/
def Codec.atDepth (codec : Codec) (maxDepth : UInt64) : Codec :=
  { codec with checker := ⟨maxDepth⟩ }

namespace Codec

variable {small large : UInt64} (hle : small ≤ large) (hroom : Checker.hasRoom ⟨large⟩ = true)
  (codec : Codec)

include hle hroom

theorem encode_atDepth (v : Value)
    (h : ∀ limit, (codec.atDepth small).encode v ≠ .error (.recursionLimit limit)) :
    (codec.atDepth large).encode v = (codec.atDepth small).encode v := by
  have hsettled : Settled (Checker.check ⟨small⟩ (some v) codec.t) := by
    by_contra hgaveUp
    obtain ⟨limit, hlimit⟩ := (not_settled_iff _).1 hgaveUp
    exact h limit (by simp only [encode, atDepth, hlimit])
  simp only [encode, atDepth, Checker.check_of_settled hle hroom hsettled]

theorem accept_atDepth (v : Value)
    (h : ∀ limit, (codec.atDepth small).accept v ≠ .error (.type (.recursionLimit limit))) :
    (codec.atDepth large).accept v = (codec.atDepth small).accept v := by
  have hsettled : Settled (Checker.check ⟨small⟩ (some v) codec.t) := by
    by_contra hgaveUp
    obtain ⟨limit, hlimit⟩ := (not_settled_iff _).1 hgaveUp
    exact h limit (by simp only [accept, atDepth, hlimit])
  simp only [accept, atDepth, Checker.check_of_settled hle hroom hsettled]

theorem decode_atDepth (text : String)
    (h : ∀ limit, (codec.atDepth small).decode text ≠ .error (.type (.recursionLimit limit))) :
    (codec.atDepth large).decode text = (codec.atDepth small).decode text := by
  cases hparse : parse text with
  | error e => simp only [decode, hparse]
  | ok v =>
      simp only [decode, hparse] at h ⊢
      exact accept_atDepth hle hroom codec v h

end Codec

/-- A greater depth leaves a settled reading of a schema document as it is. -/
theorem Schema.read_of_settled {small large : UInt64} (hle : small ≤ large)
    (hroom : Checker.hasRoom ⟨large⟩ = true) (text : String)
    (h : ∀ limit, read ⟨small⟩ text ≠ .error (.decode (.type (.recursionLimit limit)))) :
    read ⟨large⟩ text = read ⟨small⟩ text := by
  have hdecode : (documents ⟨large⟩).decode text = (documents ⟨small⟩).decode text := by
    apply Codec.decode_atDepth hle hroom (documents ⟨small⟩) text
    intro limit hlimit
    have hsame : (documents ⟨small⟩).decode text = .error (.type (.recursionLimit limit)) := hlimit
    exact h limit (by simp only [read, hsame])
  simp only [read, hdecode]

/-- Each check has one depth threshold. So a greater depth, as long as there is room for it,
never changes what encoding, decoding and reading a schema document have settled. -/
theorem checkGiven_hasThreshold :
    (∀ env term ty, HasThreshold fun maxDepth => Checker.checkGiven true ⟨maxDepth⟩ env term ty) ∧
    ∀ small large : UInt64, small ≤ large → Checker.hasRoom ⟨large⟩ = true →
      (∀ codec v, (∀ limit, (Codec.atDepth codec small).encode v ≠ .error (.recursionLimit limit)) →
        (codec.atDepth large).encode v = (codec.atDepth small).encode v) ∧
      (∀ codec text,
        (∀ limit, (Codec.atDepth codec small).decode text ≠
          .error (.type (.recursionLimit limit))) →
        (codec.atDepth large).decode text = (codec.atDepth small).decode text) ∧
      ∀ text, (∀ limit, Schema.read ⟨small⟩ text ≠
          .error (.decode (.type (.recursionLimit limit)))) →
        Schema.read ⟨large⟩ text = Schema.read ⟨small⟩ text := by
  constructor
  · intro env term ty
    simp only [Checker.checkGiven_true]
    exact upTo_hasThreshold env term ty
  · intro small large hle hroom
    refine ⟨?_, ?_, ?_⟩
    · exact fun codec v h => Codec.encode_atDepth hle hroom codec v h
    · exact fun codec text h => Codec.decode_atDepth hle hroom codec text h
    · exact fun text h => Schema.read_of_settled hle hroom text h

/-- A list of nulls is settled from depth 1 on, so it decodes alike at depths 1 and 1000. -/
theorem checkGiven_hasThreshold_nulls :
    let codec : Codec := ⟨.list (.basic .null none) none, .json, {}⟩
    (codec.atDepth 1).decode "[null]" = .ok ⟨.array [.null]⟩ ∧
    (codec.atDepth 1000).decode "[null]" = (codec.atDepth 1).decode "[null]" := by
  intro codec
  have hone : (codec.atDepth 1).decode "[null]" = .ok ⟨.array [.null]⟩ := by decide
  refine ⟨hone, ?_⟩
  refine (checkGiven_hasThreshold.2 1 1000 (by decide) (by decide)).2.1 codec "[null]" ?_
  intro limit
  simp [hone]

end TypedJson
