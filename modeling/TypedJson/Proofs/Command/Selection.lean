import TypedJson.Command.Documents
import TypedJson.Proofs.Codec

/-!
# Selected parts of documents

The part of a document that a pointer selects is written anew and parsed again before it is
checked. This detour loses nothing. A part of a readable value is readable: its objects repeat no
name, and it is nested no deeper than the whole (`Pointer.readable_of_select`). So its text is
parsed back as the same part, and decoding it is checking the part where it stands
(`Codec.decode_selected`).
-/

set_option autoImplicit false

namespace TypedJson

namespace Value.Readable

theorem item {items : List Value} {v : Value} (h : (Value.array items).Readable) (hv : v ∈ items) :
    v.Readable :=
  ⟨distinctItems_iff.1 h.1 v hv, Nat.le_trans (Nat.le_of_lt (nesting_lt_array hv)) h.2⟩

theorem member {members : List (String × Value)} {name : String} {v : Value}
    (h : (Value.object members).Readable) (hv : (name, v) ∈ members) : v.Readable :=
  ⟨distinctMembers_iff.1 h.1.2 _ hv, Nat.le_trans (Nat.le_of_lt (nesting_lt_object hv)) h.2⟩

end Value.Readable

namespace Pointer

variable {v part : Value}

/-- One token leads to a member of an object or an item of an array, and no further. -/
theorem readable_of_step {token : List Char} (hv : v.Readable) (h : step v token = some part) :
    part.Readable := by
  cases v with
  | object members => exact hv.member (Entries.mem_of_find? h)
  | array items =>
      obtain ⟨i, -, hitem⟩ := Option.bind_eq_some_iff.1 h
      exact hv.item (List.mem_of_getElem? hitem)
  | null => cases h
  | bool b => cases h
  | number n => cases h
  | string s => cases h

theorem readable_of_follow {tokens : List (List Char)} (hv : v.Readable)
    (h : follow v tokens = some part) : part.Readable := by
  induction tokens generalizing v with
  | nil =>
      cases h
      exact hv
  | cons token rest ih =>
      obtain ⟨next, hstep, hrest⟩ := Option.bind_eq_some_iff.1 h
      exact ih (readable_of_step hv hstep) hrest

/-- What a pointer selects in a readable value is readable. -/
theorem readable_of_select {pointer : String} (hv : v.Readable)
    (h : select pointer v = some part) : part.Readable := by
  obtain ⟨tokens, -, hfollow⟩ := Option.bind_eq_some_iff.1 h
  exact readable_of_follow hv hfollow

end Pointer

namespace Codec

/-- What decoding gives for the part of a document that a pointer selects. -/
def decodeSelected (codec : Codec) (pointer : Option String) (document : Document) :
    Except CommandError (Except DecodeError Decoded) := do
  let selected ← Inputs.select pointer document
  .ok (codec.decode selected.text)

/-- Selecting commutes with checking. Where the text of a document is a value and the pointer
selects a part of it, decoding what was selected is checking that part: it gives the same decoded
value or the same failure. Where the text is no value, a pointer changes nothing: decoding reports
the document as malformed for the same reason as without one. -/
theorem decode_selected (codec : Codec) (pointer : String) (document : Document) :
    (∀ v part, parse document.text = .ok v → Pointer.select pointer v = some part →
      codec.decodeSelected (some pointer) document = .ok (codec.accept part)) ∧
    (∀ e, parse document.text = .error e →
      codec.decodeSelected (some pointer) document = codec.decodeSelected none document ∧
      codec.decodeSelected (some pointer) document =
        .ok (.error (.malformed document.text e.reason))) := by
  constructor
  · intro v part hparse hselect
    have hreadable := Pointer.readable_of_select (readable_of_parse hparse) hselect
    have hdecode : codec.decode part.compact = codec.accept part :=
      decode_of_parse (parse_compact hreadable)
    simp only [decodeSelected, Inputs.select, hparse, hselect, bind, Except.bind, hdecode]
  · intro e hparse
    have hsame : Inputs.select (some pointer) document = .ok document := by
      simp only [Inputs.select, hparse]
    have hplain : Inputs.select none document = .ok document := rfl
    constructor
    · rw [decodeSelected, decodeSelected, hsame, hplain]
    · rw [decodeSelected, hsame]
      exact congrArg Except.ok (decode_of_parse_error hparse)

/-- A pointer with both escapes and an item number leads to numbers that are written otherwise than
they stand in the document; as flags they do not pass. A text that breaks off is malformed in
spite of the pointer. -/
theorem decode_selected_escaped :
    let floats : Codec := ⟨.list (.basic .float none) none, .json, {}⟩
    let flags : Codec := ⟨.list (.basic .bool none) none, .json, {}⟩
    let document : Document := ⟨"in", "\x7b\"a/b\": [7, \x7b\"~\": [2e2, -0.0]\x7d]\x7d"⟩
    let broken : Document := ⟨"in", "[1,"⟩
    let float (x : Binary64) : Value := .number (.float x)
    let part : Value := .array [float (Binary64.ofInt 200), float (.zero true)]
    Inputs.select (some "/a~1b/1/~0") document = .ok ⟨"in", "[200.0,-0.0]"⟩ ∧
      floats.decodeSelected (some "/a~1b/1/~0") document = .ok (.ok ⟨part⟩) ∧
      flags.decodeSelected (some "/a~1b/1/~0") document = .ok (.error
        (.type (.mismatch (.basic .bool none) (some (float (Binary64.ofInt 200)))))) ∧
      floats.decodeSelected (some "/a~1b/1/~0") broken = .ok (.error
        (.malformed "[1," "EOF while parsing a value at line 1 column 3")) := by
  intro floats flags document broken float part
  have hparse : parse document.text =
      .ok (.object [("a/b", .array [.number (.ofNat 7), .object [("~", part)]])]) := by
    decide +kernel +zetaReduce
  have hpart := (decode_selected floats "/a~1b/1/~0" document).1 _ part hparse
    (by decide +kernel +zetaReduce)
  have hfailure := (decode_selected flags "/a~1b/1/~0" document).1 _ part hparse
    (by decide +kernel +zetaReduce)
  refine ⟨by decide +kernel +zetaReduce, hpart.trans (by decide +kernel +zetaReduce),
    hfailure.trans (by decide +kernel +zetaReduce), ?_⟩
  have hbroken : parse broken.text = .error ⟨.text .endInValue, some ⟨1, 3⟩, []⟩ := by
    decide +kernel +zetaReduce
  exact ((decode_selected floats "/a~1b/1/~0" broken).2 _ hbroken).2

end Codec

end TypedJson
