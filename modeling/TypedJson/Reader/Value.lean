import TypedJson.Reader.Container

/-!
# Reading values

`Reader.raw` reads one value from the front of a text. Objects keep repeated names,
as the text has them; `parse` reads a whole text and gives each name one member.
At most 127 arrays and objects may be open at one time.
-/

set_option autoImplicit false

namespace TypedJson.Reader

/-- How many arrays and objects may be open at one time. -/
def maxOpen : Nat := 127

/-- A value, with repeated names kept. `room` is the number of arrays and objects
that may still be opened. -/
def raw : (room : Nat) → List Char → Except Fault (Taken Value)
  | room, s =>
      match skipGap s with
      | [] => .error (.here .endInValue [])
      | 'n' :: t => do
          let t ← word ['u', 'l', 'l'] t
          .ok (.null, t)
      | 't' :: t => do
          let t ← word ['r', 'u', 'e'] t
          .ok (.bool true, t)
      | 'f' :: t => do
          let t ← word ['a', 'l', 's', 'e'] t
          .ok (.bool false, t)
      | '"' :: t => do
          let (text, t) ← quoted t
          .ok (.string text, t)
      | '[' :: t =>
          match room with
          | 0 => .error (.next .nestedTooDeep ('[' :: t))
          | room + 1 => do
              let (vs, t) ← items (raw room) (t.length + 1) 0 t
              .ok (.array vs, t)
      | '\x7b' :: t =>
          match room with
          | 0 => .error (.next .nestedTooDeep ('\x7b' :: t))
          | room + 1 => do
              let (ms, t) ← named (raw room) t
              .ok (.object ms, t)
      | '-' :: t => do
          let (n, t) ← number true t
          .ok (.number n, t)
      | c :: t =>
          if isDigit c then do
            let (n, t) ← number false (c :: t)
            .ok (.number n, t)
          else .error (.next .expectedValue (c :: t))

/-- A value in which each name of an object has one member. -/
def value (room : Nat) (s : List Char) : Except Fault (Taken Value) := do
  let (v, rest) ← raw room s
  .ok (v.merged, rest)

/-- Only white space remains. -/
def finish (s : List Char) : Except Fault Unit :=
  match skipGap s with
  | [] => .ok ()
  | t => .error (.next .trailingCharacters t)

/-- A whole text, with nothing but white space after what is read. -/
def whole {α : Type} (reader : List Char → Except Fault (Taken α)) (text : String) :
    Except ReadError α :=
  let s := text.toList
  (do
    let (a, rest) ← reader s
    finish rest
    .ok a : Except Fault α).mapError (ReadError.ofFault s)

/-- The front of a text; what follows is not looked at. -/
def front {α : Type} (reader : List Char → Except Fault (Taken α)) (text : String) :
    Except ReadError α :=
  let s := text.toList
  (do
    let (a, _) ← reader s
    .ok a : Except Fault α).mapError (ReadError.ofFault s)

end TypedJson.Reader

namespace TypedJson

/-- The value of a whole JSON text. -/
def parse (text : String) : Except ReadError Value :=
  Reader.whole (Reader.value Reader.maxOpen) text

end TypedJson
