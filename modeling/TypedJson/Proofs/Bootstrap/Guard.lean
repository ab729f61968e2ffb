import TypedJson.Proofs.Bootstrap.Depth
import TypedJson.Proofs.Check.Threshold

/-!
# No schema document reaches the default depth

A text that is parsed has at most 127 arrays and objects open at one time. At that nesting
a check against the schema of schemas takes at most 511 levels, whether the document is a
schema or not (`settlesIn_document`): it goes down to depth 510 and looks at nothing below.
The default depth is 512. So no text is given up on, and every depth from 510 on reads
every text alike (`read_never_gaveUp`).
-/

set_option autoImplicit false

namespace TypedJson

open Check Bootstrap

/-- A value that the decoder refuses was parsed, and it is the check that refused it. -/
theorem Codec.exists_of_decode_eq_type {codec : Codec} {text : String} {failure : Failure}
    (h : codec.decode text = .error (.type failure)) :
    ∃ v, parse text = .ok v ∧ codec.checker.check (some v) codec.t = .error failure := by
  cases hparse : parse text with
  | error e =>
      rw [decode_of_parse_error hparse] at h
      cases h
  | ok v =>
      refine ⟨v, rfl, ?_⟩
      have haccept : codec.accept v = .error (.type failure) := by
        simpa only [decode, hparse] using h
      cases hcheck : codec.checker.check (some v) codec.t with
      | ok _ => simp only [accept, hcheck, reduceCtorEq] at haccept
      | error other =>
          simp only [accept, hcheck] at haccept
          cases haccept
          rfl

namespace Schema

/-- A value of the nesting that texts may have is settled at depth 510. -/
theorem settlesIn_document {v : Value} (h : v.nesting ≤ 127) :
    SettlesIn 511 .empty (some v) schemaType :=
  settlesIn_schemaType (n := 126) (within_some.2 h)

/-- A reading that is given up has given up on the value of its text. -/
theorem exists_of_read_gaveUp {checker : Checker} {text : String} {limit : UInt64}
    (h : read checker text = .error (.decode (.type (.recursionLimit limit)))) :
    ∃ v, TypedJson.parse text = .ok v ∧
      checker.check (some v) schemaType = .error (.recursionLimit limit) := by
  cases hdecode : (documents checker).decode text with
  | error e =>
      simp only [read, hdecode] at h
      cases h
      obtain ⟨v, hparse, hcheck⟩ := Codec.exists_of_decode_eq_type hdecode
      exact ⟨v, hparse, hcheck⟩
  | ok decoded =>
      simp only [read, hdecode] at h
      split at h <;> cases h

/-- From depth 510 on, a reading is never given up. -/
theorem read_ne_gaveUp {maxDepth : UInt64} (hdepth : 510 ≤ maxDepth)
    (hroom : Checker.hasRoom ⟨maxDepth⟩ = true) (text : String) (limit : UInt64) :
    read ⟨maxDepth⟩ text ≠ .error (.decode (.type (.recursionLimit limit))) := by
  intro hread
  obtain ⟨v, hparse, hcheck⟩ := exists_of_read_gaveUp hread
  -- What was parsed is nested at most 127 deep, and then 511 levels are enough.
  have hlevels : 511 ≤ maxDepth.toNat + 1 := Nat.succ_le_succ (UInt64.le_iff_toNat_le.1 hdepth)
  have hsettles := (settlesIn_document (readable_of_parse hparse).2).mono hlevels
  have hsettled : Settled (Checker.check ⟨maxDepth⟩ (some v) schemaType) := by
    rw [Checker.check, Checker.checkIn, Checker.checkGiven_of_room fun _ => hroom]
    exact hsettles maxDepth
  rw [hcheck] at hsettled
  cases hsettled

/-- No text is given up on. A value of the nesting that texts may have, a schema or not, is
settled at depth 510, and nothing that could stand below makes a difference. So the default
depth gives up on no text, and every depth from 510 on for which there is room reads each
text as the default depth does. -/
theorem read_never_gaveUp :
    (∀ v : Value, v.nesting ≤ 127 →
      Settled (upTo 510 .empty (some v) schemaType) ∧
      ∀ below : Judge, level^[511] below .empty (some v) schemaType =
        upTo 510 .empty (some v) schemaType) ∧
    (∀ text limit, read {} text ≠ .error (.decode (.type (.recursionLimit limit)))) ∧
    ∀ maxDepth : UInt64, 510 ≤ maxDepth → Checker.hasRoom ⟨maxDepth⟩ = true →
      ∀ text, read ⟨maxDepth⟩ text = read {} text := by
  refine ⟨?_, ?_, ?_⟩
  · intro v hnesting
    have hsettles := settlesIn_document hnesting
    exact ⟨hsettles 510, fun below => hsettles.iterate_level below 510⟩
  · exact read_ne_gaveUp (by decide) (by decide)
  · intro maxDepth hdepth hroom text
    have hleast : ∀ limit, read ⟨510⟩ text ≠ .error (.decode (.type (.recursionLimit limit))) :=
      read_ne_gaveUp (by decide) (by decide) text
    rw [read_of_settled hdepth hroom text hleast,
      read_of_settled (show 510 ≤ 512 by decide) (by decide) text hleast]

/-- Under 125 lists, a reference with a note takes the document to depth 510 and to the
limit of texts. It is given up on at depth 509, and read alike at depths 510 and 100000. -/
theorem read_never_gaveUp_lists :
    let s : Schema := .json (Nat.repeat (fun t => .list t none) 125 (.ref "x" (some .null))) .null
    s.toValue.nesting = 127 ∧
    upTo 509 .empty (some s.toValue) schemaType = .error (.recursionLimit 509) ∧
    Settled (upTo 510 .empty (some s.toValue) schemaType) ∧
    read ⟨510⟩ s.text = read {} s.text ∧ read ⟨100000⟩ s.text = read {} s.text := by
  intro s
  have hnesting : s.toValue.nesting = 127 := by decide +kernel +zetaReduce
  have hgaveUp : upTo 509 .empty (some s.toValue) schemaType = .error (.recursionLimit 509) := by
    decide +kernel +zetaReduce
  clear_value s
  obtain ⟨hsettled, -⟩ := read_never_gaveUp.1 s.toValue (Nat.le_of_eq hnesting)
  have halike := read_never_gaveUp.2.2
  exact ⟨hnesting, hgaveUp, hsettled, halike 510 (by decide) (by decide) s.text,
    halike 100000 (by decide) (by decide) s.text⟩

end Schema

end TypedJson
