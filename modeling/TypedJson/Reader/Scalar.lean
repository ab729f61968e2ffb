import TypedJson.Reader.Fault

/-!
# Reading words, numbers and quoted texts

Each reader takes the characters ahead and gives what it read together with what
remains. Numbers keep their form: an integer that fits stays an integer, all else
becomes the nearest binary64 number.
-/

set_option autoImplicit false

namespace TypedJson.Reader

/-- The white space between tokens. -/
def isGap (c : Char) : Bool :=
  c == ' ' || c == '\t' || c == '\n' || c == '\r'

/-- Drops the white space in front. -/
def skipGap (s : List Char) : List Char :=
  s.dropWhile isGap

/-- Reads the remaining characters of a word such as `true`. -/
def word : List Char → List Char → Except Fault (List Char)
  | [], s => .ok s
  | _ :: _, [] => .error (.here .endInValue [])
  | expected :: more, c :: s =>
      if c = expected then word more s else .error (.next .expectedIdent (c :: s))

/-- A decimal digit. -/
def isDigit (c : Char) : Bool :=
  '0' ≤ c && c ≤ '9'

/-- The value of a run of decimal digits after the digits that stand for `n`. -/
def digitsFrom (n : Nat) (ds : List Char) : Nat :=
  ds.foldl (fun n c => n * 10 + (c.toNat - 48)) n

/-- The whole part of a number: a zero on its own, or digits that start with none. -/
def wholePart : List Char → Except Fault (Taken (List Char))
  | [] => .error (.here .endInValue [])
  | c :: s =>
      if c = '0' then
        match s with
        | d :: _ => if isDigit d then .error (.next .invalidNumber s) else .ok ([c], s)
        | [] => .ok ([c], s)
      else if isDigit c then .ok (c :: s.takeWhile isDigit, s.dropWhile isDigit)
      else .error (.next .invalidNumber (c :: s))

/-- The digits after a decimal point, at least one; none without a point. -/
def fraction : List Char → Except Fault (Taken (Option (List Char)))
  | '.' :: s =>
      match s with
      | [] => .error (.here .endInValue [])
      | c :: _ =>
          if isDigit c then .ok (some (s.takeWhile isDigit), s.dropWhile isDigit)
          else .error (.next .invalidNumber s)
  | s => .ok (none, s)

/-- The largest exponent that is counted. -/
def exponentLimit : Nat := 2147483647

/-- How an exponent reads: its size, or that it exceeds the limit. -/
inductive ExponentSize where
  | counted (n : Nat)
  | excessive

/-- The digits of an exponent after those that stand for `n`, up to the one that
takes it past the limit. -/
def exponentDigits (n : Nat) : List Char → ExponentSize × List Char
  | [] => (.counted n, [])
  | c :: s =>
      if isDigit c then
        let grown := n * 10 + (c.toNat - 48)
        if exponentLimit < grown then (.excessive, s) else exponentDigits grown s
      else (.counted n, c :: s)

/-- An exponent: its sign and size. -/
structure Exponent where
  negative : Bool
  size : ExponentSize

/-- The exponent mark, a sign and at least one digit; none without a mark. -/
def exponent : List Char → Except Fault (Taken (Option Exponent))
  | [] => .ok (none, [])
  | mark :: s =>
      if mark = 'e' || mark = 'E' then
        let (negative, digits) :=
          match s with
          | '+' :: t => (false, t)
          | '-' :: t => (true, t)
          | t => (false, t)
        match digits with
        | [] => .error (.here .endInValue [])
        | c :: t =>
            if isDigit c then
              let (size, rest) := exponentDigits (c.toNat - 48) t
              .ok (some ⟨negative, size⟩, rest)
            else .error (.next .invalidNumber (c :: t))
      else .ok (none, mark :: s)

/-- The binary64 number of a sign, digits, the count of those after the point and
an exponent. An exponent past the limit gives zero, unless it would give infinity. -/
def floatOf (negative : Bool) (digits places : Nat) (e : Option Exponent) (rest : List Char) :
    Except Fault (Taken Number) :=
  let ofSize (size : Int) : Except Fault (Taken Number) :=
    match Decimal.toBinary64? negative ⟨digits, size - (places : Int)⟩ with
    | some x => .ok (.float x, rest)
    | none => .error (.here .numberOutOfRange rest)
  match e with
  | none => ofSize 0
  | some ⟨below, .counted n⟩ => ofSize (if below then -(n : Int) else n)
  | some ⟨below, .excessive⟩ =>
      if digits ≠ 0 && !below then .error (.here .numberOutOfRange rest)
      else .ok (.float (.zero negative), rest.dropWhile isDigit)

/-- A number after its sign. -/
def number (negative : Bool) (s : List Char) : Except Fault (Taken Number) := do
  let (whole, s) ← wholePart s
  let (places, s) ← fraction s
  let (e, s) ← exponent s
  match places, e with
  | none, none =>
      match Number.ofDigits? negative (digitsFrom 0 whole) with
      | some n => .ok (n, s)
      | none => .error (.here .numberOutOfRange s)
  | places, e =>
      let after := places.getD []
      floatOf negative (digitsFrom (digitsFrom 0 whole) after) after.length e s

/-- The value of a hexadecimal digit. -/
def hexValue? (c : Char) : Option Nat :=
  if '0' ≤ c && c ≤ '9' then some (c.toNat - 48)
  else if 'a' ≤ c && c ≤ 'f' then some (c.toNat - 87)
  else if 'A' ≤ c && c ≤ 'F' then some (c.toNat - 55)
  else none

/-- The number of bytes of a text. -/
def byteLength (s : List Char) : Nat :=
  s.foldl (fun n c => n + c.utf8Size) 0

/-- Four hexadecimal digits. With fewer than four bytes left the text ends inside
the escape. -/
def hexUnit (s : List Char) : Except Fault (Taken Nat) :=
  let broken : Except Fault (Taken Nat) :=
    if byteLength s < 4 then .error (.here .endInString [])
    else .error ⟨.text .invalidEscape, s, 4, []⟩
  match s with
  | a :: b :: c :: d :: rest =>
      match hexValue? a, hexValue? b, hexValue? c, hexValue? d with
      | some a, some b, some c, some d => .ok (((a * 16 + b) * 16 + c) * 16 + d, rest)
      | _, _, _, _ => broken
  | _ => broken

/-- The first half of a surrogate pair. -/
def isHighSurrogate (n : Nat) : Bool :=
  0xD800 ≤ n && n ≤ 0xDBFF

/-- The second half of a surrogate pair. -/
def isLowSurrogate (n : Nat) : Bool :=
  0xDC00 ≤ n && n ≤ 0xDFFF

/-- The second half of a surrogate pair, as an escape of its own. -/
def lowSurrogate : List Char → Except Fault Nat
  | [] => .error (.here .endInString [])
  | '\\' :: s =>
      match s with
      | [] => .error (.here .endInString [])
      | 'u' :: t => do
          let (n, rest) ← hexUnit t
          if isLowSurrogate n then .ok n else .error (.here .loneSurrogate rest)
      | s => .error (.next .unfinishedSurrogatePair s)
  | s => .error (.next .unfinishedSurrogatePair s)

/-- The character of a numbered escape, after the `u`, and how many characters its
digits take: four, or ten for a surrogate pair. -/
def numberedChar (s : List Char) : Except Fault (Char × Nat) := do
  let (n, rest) ← hexUnit s
  if isLowSurrogate n then .error (.here .loneSurrogate rest)
  else if isHighSurrogate n then
    let low ← lowSurrogate rest
    .ok (Char.ofNat ((n - 0xD800) * 0x400 + (low - 0xDC00) + 0x10000), 10)
  else .ok (Char.ofNat n, 4)

/-- The character of an escape, after the backslash, and how many characters it
takes there. -/
def escape : List Char → Except Fault (Char × Nat)
  | [] => .error (.here .endInString [])
  | c :: s =>
      match c with
      | '"' => .ok ('"', 1)
      | '\\' => .ok ('\\', 1)
      | '/' => .ok ('/', 1)
      | 'b' => .ok ('\x08', 1)
      | 'f' => .ok ('\x0c', 1)
      | 'n' => .ok ('\n', 1)
      | 'r' => .ok ('\r', 1)
      | 't' => .ok ('\t', 1)
      | 'u' => do
          let (c, length) ← numberedChar s
          .ok (c, length + 1)
      | c => .error (.next .invalidEscape (c :: s))

/-- The characters of a quoted text up to its closing quote. The first `pending`
characters belong to an escape that is already read. -/
def quotedChars : (pending : Nat) → List Char → Except Fault (Taken (List Char))
  | _, [] => .error (.here .endInString [])
  | pending + 1, _ :: s => quotedChars pending s
  | 0, '"' :: s => .ok ([], s)
  | 0, '\\' :: s => do
      let (c, length) ← escape s
      let (cs, rest) ← quotedChars length s
      .ok (c :: cs, rest)
  | 0, c :: s =>
      if c.toNat < 32 then .error (.next .controlCharacter (c :: s))
      else do
        let (cs, rest) ← quotedChars 0 s
        .ok (c :: cs, rest)

/-- A quoted text, after its opening quote. -/
def quoted (s : List Char) : Except Fault (Taken String) := do
  let (cs, rest) ← quotedChars 0 s
  .ok (String.ofList cs, rest)

end TypedJson.Reader
