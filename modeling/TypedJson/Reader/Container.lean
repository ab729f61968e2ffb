import TypedJson.Reader.Scalar

/-!
# Reading arrays and objects

The steps between the parts of an array or an object are the same whatever the
parts are: `nextItem` and `nextKey` find the next part or the closing bracket, and
`items` and `members` run through all of them with a reader for the parts. Every
part takes at least one character, so the number of characters bounds the number
of parts.
-/

set_option autoImplicit false

namespace TypedJson.Reader

/-- What comes next in a container: a part that starts here, or the end with what
remains after the closing bracket. -/
inductive Next (α : Type) where
  | part (a : α)
  | close (rest : List Char)

/-- The next item of an array; the text of the item is not taken. -/
def nextItem (first : Bool) (s : List Char) : Except Fault (Next (List Char)) :=
  match skipGap s with
  | [] => .error (.here .endInList [])
  | ']' :: rest => .ok (.close rest)
  | c :: t =>
      if first then .ok (.part (c :: t))
      else if c = ',' then
        match skipGap t with
        | [] => .error (.here .endInValue [])
        | ']' :: u => .error (.next .trailingComma (']' :: u))
        | u => .ok (.part u)
      else .error (.next .expectedCommaOrBracket (c :: t))

/-- The quote that opens the next key of an object, which is taken. -/
def nextQuote (first : Bool) (s : List Char) : Except Fault (Next (List Char)) :=
  match skipGap s with
  | [] => .error (.here .endInObject [])
  | '\x7d' :: rest => .ok (.close rest)
  | c :: t =>
      if first then
        if c = '"' then .ok (.part t) else .error (.next .keyNotString (c :: t))
      else if c = ',' then
        match skipGap t with
        | [] => .error (.here .endInValue [])
        | '"' :: u => .ok (.part u)
        | '\x7d' :: u => .error (.next .trailingComma ('\x7d' :: u))
        | u => .error (.next .keyNotString u)
      else .error (.next .expectedCommaOrBrace (c :: t))

/-- The next key of an object and what remains after it. -/
def nextKey (first : Bool) (s : List Char) : Except Fault (Next (Taken String)) :=
  below .unknown do
    match ← nextQuote first s with
    | .close rest => .ok (.close rest)
    | .part t => do
        let key ← quoted t
        .ok (.part key)

/-- The colon after a key. -/
def colon (s : List Char) : Except Fault (List Char) :=
  match skipGap s with
  | [] => .error (.here .endInObject [])
  | ':' :: rest => .ok rest
  | t => .error (.next .expectedColon t)

variable {α σ : Type}

/-- The items of an array from the one with number `i` on, after the opening
bracket. -/
def items (item : List Char → Except Fault (Taken α)) :
    (fuel i : Nat) → List Char → Except Fault (Taken (List α))
  | 0, _, _ => .error (.here .endInList [])
  | fuel + 1, i, s => do
      match ← nextItem (i == 0) s with
      | .close rest => .ok ([], rest)
      | .part t => do
          let (a, t) ← below (.index i) (item t)
          let (more, rest) ← items item fuel (i + 1) t
          .ok (a :: more, rest)

/-- Runs through the members of an object, after the opening brace. A step gets
what was gathered so far, the key, and what remains after the key. -/
def members (step : σ → String → List Char → Except Fault (Taken σ)) :
    (fuel : Nat) → (first : Bool) → σ → List Char → Except Fault (Taken σ)
  | 0, _, _, _ => .error (.here .endInObject [])
  | fuel + 1, first, gathered, s => do
      match ← nextKey first s with
      | .close rest => .ok (gathered, rest)
      | .part (key, t) => do
          let (gathered, t) ← step gathered key t
          members step fuel false gathered t

/-- The colon and the value of a member. -/
def memberValue (value : List Char → Except Fault (Taken α)) (key : String) (s : List Char) :
    Except Fault (Taken α) := do
  let s ← colon s
  below (.key key) (value s)

/-- Named values in the order of the text, with repeated names kept. -/
def named (value : List Char → Except Fault (Taken α)) (s : List Char) :
    Except Fault (Taken (List (String × α))) := do
  let step gathered key t := do
    let (a, t) ← memberValue value key t
    .ok ((key, a) :: gathered, t)
  let (gathered, rest) ← members step (s.length + 1) true [] s
  .ok (gathered.reverse, rest)

end TypedJson.Reader
