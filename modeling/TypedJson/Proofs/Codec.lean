import TypedJson.Codec
import TypedJson.Proofs.Reader.Value

/-!
# Encoding and decoding undo each other

A codec writes the compact text of a value that passes its check, and it checks what
it parses. So the round trip through a codec is the round trip through a text:
`Codec.encode_eq_ok_iff` and `Codec.decode_eq_ok_iff` say what each half does, and the
texts are those of `parse_compact`, `parse_compact_deep` and `readable_of_parse`.
-/

set_option autoImplicit false

namespace TypedJson.Codec

variable {codec : Codec} {v : Value} {text : String}

/-- What passes the check is encoded as its compact text, and nothing else is. -/
theorem encode_eq_ok_iff :
    codec.encode v = .ok text ↔
      codec.checker.check (some v) codec.t = .ok () ∧ text = v.compact := by
  unfold encode
  cases codec.checker.check (some v) codec.t with
  | error failure => simp
  | ok _ =>
      cases codec.encoding with
      | json => simp [eq_comm]

/-- What is parsed and passes the check is decoded, and nothing else is. -/
theorem decode_eq_ok_iff :
    codec.decode text = .ok ⟨v⟩ ↔
      parse text = .ok v ∧ codec.checker.check (some v) codec.t = .ok () := by
  unfold decode
  cases codec.encoding with
  | json =>
      cases hparse : parse text with
      | error e => simp
      | ok u =>
          simp only [accept, Except.ok.injEq]
          cases hcheck : codec.checker.check (some u) codec.t with
          | error failure =>
              constructor
              · intro h
                cases h
              · rintro ⟨rfl, hv⟩
                rw [hcheck] at hv
                cases hv
          | ok _ =>
              constructor
              · intro h
                cases h
                exact ⟨rfl, hcheck⟩
              · rintro ⟨rfl, -⟩
                rfl

/-- Decoding the text of a value is checking the value. -/
theorem decode_of_parse (h : parse text = .ok v) : codec.decode text = codec.accept v := by
  unfold decode
  cases codec.encoding with
  | json => simp only [h]

/-- A text that is no value is malformed, whatever the type. -/
theorem decode_of_parse_error {e : ReadError} (h : parse text = .error e) :
    codec.decode text = .error (.malformed text e.reason) := by
  unfold decode
  cases codec.encoding with
  | json => simp only [h]

theorem ofSchema_of_known {schema : Schema} (hversion : schema.version = "0")
    (hencoding : schema.encoding = "json") (checker : Checker) :
    ofSchema schema checker = .ok ⟨schema.t, .json, checker⟩ := by
  have hconfig : schema.config = .ok .json := by
    simp only [Schema.config, hversion, hencoding]
    rfl
  rw [ofSchema, hconfig]
  rfl

/-! ## The round trip -/

/-- Decoding undoes encoding, and encoding a decoded value loses nothing. A value without
repeated names is decoded from its text as it was, member order and the form of its numbers
included, unless more than 127 of its arrays and objects are open at one time; then its text
is malformed. -/
theorem encode_decode_roundTrip (schema : Schema) (checker : Checker)
    (hversion : schema.version = "0") (hencoding : schema.encoding = "json") :
    ∃ codec, ofSchema schema checker = .ok codec ∧
      (∀ v text, v.Distinct → codec.encode v = .ok text →
        (v.nesting ≤ 127 → codec.decode text = .ok ⟨v⟩) ∧
        (127 < v.nesting → ∃ e, parse text = .error e ∧ e.cause = .text .nestedTooDeep ∧
          codec.decode text = .error (.malformed text e.reason))) ∧
      ∀ text v, codec.decode text = .ok ⟨v⟩ →
        ∃ text', codec.encode v = .ok text' ∧ codec.decode text' = .ok ⟨v⟩ := by
  refine ⟨_, ofSchema_of_known hversion hencoding checker, ?_, ?_⟩
  · intro v text hdistinct hencode
    obtain ⟨hcheck, rfl⟩ := encode_eq_ok_iff.1 hencode
    constructor
    · intro hnesting
      exact decode_eq_ok_iff.2 ⟨parse_compact ⟨hdistinct, hnesting⟩, hcheck⟩
    · intro hdeep
      obtain ⟨e, hparse, hcause⟩ := parse_compact_deep hdeep
      exact ⟨e, hparse, hcause, decode_of_parse_error hparse⟩
  · intro text v hdecode
    obtain ⟨hparse, hcheck⟩ := decode_eq_ok_iff.1 hdecode
    refine ⟨v.compact, encode_eq_ok_iff.2 ⟨hcheck, rfl⟩, ?_⟩
    exact decode_eq_ok_iff.2 ⟨parse_compact (readable_of_parse hparse), hcheck⟩

/-- Escapes, the largest integer, a minus zero and a decimal fraction come back as they
were; 127 arrays in an object are one container too many. -/
theorem encode_decode_roundTrip_objects :
    let mixed : Value := .object
      [("z\"\\\x01", .array [.number (.int 18446744073709551615 (by decide)), .bool true]),
        ("a", .number (.float (.zero true))),
        ("b", .number (.float ⟨false, 7205759403792794, -56, by decide⟩))]
    let deep : Value := .object [("a", Nat.repeat (fun v => .array [v]) 127 .null)]
    let text := "\x7b\"z\\\"\\\\\\u0001\":[18446744073709551615,true],\"a\":-0.0,\"b\":0.1\x7d"
    let codec : Codec := ⟨.struct [] none, .json, {}⟩
    ofSchema (Schema.json codec.t .null) codec.checker = .ok codec ∧
      codec.encode mixed = .ok text ∧ codec.decode text = .ok ⟨mixed⟩ ∧
      codec.encode deep = .ok deep.compact ∧
      ∃ reason, codec.decode deep.compact = .error (.malformed deep.compact reason) := by
  intro mixed deep text codec
  have hmixed : codec.encode mixed = .ok text := by decide +kernel +zetaReduce
  have hdeep : codec.encode deep = .ok deep.compact := by decide +kernel +zetaReduce
  obtain ⟨_, hcodec, hround, -⟩ :=
    encode_decode_roundTrip (Schema.json codec.t .null) codec.checker rfl rfl
  cases hcodec
  obtain ⟨e, -, -, hrefused⟩ := (hround deep deep.compact
    (by decide +kernel +zetaReduce) hdeep).2 (by decide +kernel +zetaReduce)
  refine ⟨rfl, hmixed, ?_, hdeep, e.reason, hrefused⟩
  exact (hround mixed text (by decide +kernel +zetaReduce) hmixed).1
    (by decide +kernel +zetaReduce)

end TypedJson.Codec
