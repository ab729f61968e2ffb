import TypedJson.Reader.Container

/-!
# Passing over a value

The value of a member that nothing asks for is passed over without being built.
Brackets are matched with a stack, so nesting has no limit here; numbers are not
converted, and surrogates need not pair. After a comma the next part is expected
at once, so a closing bracket there is no trailing comma but a missing part.
-/

set_option autoImplicit false

namespace TypedJson.Reader

/-- Passes over the digits of an exponent, after its mark. -/
def skipExponent (s : List Char) : Except Fault (List Char) :=
  let digits :=
    match s with
    | '+' :: t => t
    | '-' :: t => t
    | t => t
  match digits with
  | [] => .error (.here .invalidNumber [])
  | c :: t => if isDigit c then .ok (t.dropWhile isDigit) else .error (.next .invalidNumber (c :: t))

/-- Passes over an exponent, if there is one. -/
def skipPower : List Char → Except Fault (List Char)
  | [] => .ok []
  | c :: s => if c = 'e' || c = 'E' then skipExponent s else .ok (c :: s)

/-- Passes over a number, after its sign. -/
def skipNumber (s : List Char) : Except Fault (List Char) := do
  let s ←
    match s with
    | [] => .error (.here .invalidNumber [])
    | c :: t =>
        if c = '0' then
          match t with
          | d :: _ => if isDigit d then .error (.next .invalidNumber t) else .ok t
          | [] => .ok t
        else if isDigit c then .ok (t.dropWhile isDigit)
        else .error (.next .invalidNumber (c :: t))
  match s with
  | '.' :: t =>
      match t with
      | [] => .error (.here .invalidNumber [])
      | c :: _ =>
          if isDigit c then skipPower (t.dropWhile isDigit) else .error (.next .invalidNumber t)
  | t => skipPower t

/-- How many characters an escape takes after its backslash. -/
def skipEscape : List Char → Except Fault Nat
  | [] => .error (.here .endInString [])
  | c :: s =>
      if ['"', '\\', '/', 'b', 'f', 'n', 'r', 't'].contains c then .ok 1
      else if c = 'u' then do
        let _ ← hexUnit s
        .ok 5
      else .error (.next .invalidEscape (c :: s))

/-- Passes over a quoted text, after its opening quote. The first `pending`
characters belong to an escape. -/
def skipQuoted : (pending : Nat) → List Char → Except Fault (List Char)
  | _, [] => .error (.here .endInString [])
  | pending + 1, _ :: s => skipQuoted pending s
  | 0, '"' :: s => .ok s
  | 0, '\\' :: s => do
      let length ← skipEscape s
      skipQuoted length s
  | 0, c :: s =>
      if c.toNat < 32 then .error (.here .controlCharacter (c :: s)) else skipQuoted 0 s

/-- An open bracket. -/
inductive Bracket where
  | square
  | curly
  deriving DecidableEq

namespace Bracket

/-- The character that closes the bracket. -/
def closer : Bracket → Char
  | .square => ']'
  | .curly => '\x7d'

/-- The text ends inside the bracket. -/
def atEnd : Bracket → TextFault
  | .square => .endInList
  | .curly => .endInObject

/-- Neither a comma nor the closing bracket follows a part. -/
def noComma : Bracket → TextFault
  | .square => .expectedCommaOrBracket
  | .curly => .expectedCommaOrBrace

end Bracket

/-- Passes over the key and colon of a member; there is none inside an array. -/
def skipKey (bracket : Bracket) (s : List Char) : Except Fault (List Char) :=
  match bracket with
  | .square => .ok s
  | .curly =>
      match skipGap s with
      | [] => .error (.here .endInObject [])
      | '"' :: t => do
          let t ← skipQuoted 0 t
          colon t
      | t => .error (.next .keyNotString t)

/-- Where the scan stands: before a value, or after an opening bracket or a part. -/
inductive Stage where
  | value
  | opened
  | after
  deriving DecidableEq

/-- Passes over what remains of a value inside the given open brackets. Two steps
a character suffice. -/
def skipFrom : (fuel : Nat) → Stage → List Bracket → List Char → Except Fault (List Char)
  | 0, _, _, _ => .error (.here .endInValue [])
  | fuel + 1, .value, stack, s =>
      match skipGap s with
      | [] => .error (.here .endInValue [])
      | '[' :: t => skipFrom fuel .opened (.square :: stack) t
      | '\x7b' :: t => skipFrom fuel .opened (.curly :: stack) t
      | 'n' :: t => do
          let t ← word ['u', 'l', 'l'] t
          skipFrom fuel .after stack t
      | 't' :: t => do
          let t ← word ['r', 'u', 'e'] t
          skipFrom fuel .after stack t
      | 'f' :: t => do
          let t ← word ['a', 'l', 's', 'e'] t
          skipFrom fuel .after stack t
      | '"' :: t => do
          let t ← skipQuoted 0 t
          skipFrom fuel .after stack t
      | '-' :: t => do
          let t ← skipNumber t
          skipFrom fuel .after stack t
      | c :: t =>
          if isDigit c then do
            let t ← skipNumber (c :: t)
            skipFrom fuel .after stack t
          else .error (.next .expectedValue (c :: t))
  | _ + 1, _, [], s => .ok s
  | fuel + 1, stage, bracket :: outer, s =>
      match skipGap s with
      | [] => .error (.here bracket.atEnd [])
      | c :: t =>
          if stage = .after && c = ',' then do
            let t ← skipKey bracket t
            skipFrom fuel .value (bracket :: outer) t
          else if c = bracket.closer then skipFrom fuel .after outer t
          else if stage = .after then .error (.next bracket.noComma (c :: t))
          else do
            let t ← skipKey bracket (c :: t)
            skipFrom fuel .value (bracket :: outer) t

/-- Passes over one value. -/
def skip (s : List Char) : Except Fault (Taken Unit) := do
  let rest ← skipFrom (2 * s.length + 2) .value [] s
  .ok ((), rest)

end TypedJson.Reader
