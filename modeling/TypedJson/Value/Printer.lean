import TypedJson.Value

/-!
# Texts of values

`Value.write` puts the compact text of a value in front of the text that follows
it; nothing is written between tokens. `Value.writePretty` puts every item and
member on a line of its own, indented by two spaces a level, with a space after a
colon; empty arrays and objects stay on one line.
-/

set_option autoImplicit false

namespace TypedJson.Value

/-- One of the sixteen lower case digits. -/
def hexDigit (n : Nat) : Char :=
  if n < 10 then Char.ofNat (48 + n) else Char.ofNat (87 + n)

/-- A character inside a quoted text: quotes, backslashes and controls are
escaped, all else stands for itself. -/
def escaped (c : Char) : List Char :=
  match c with
  | '"' => ['\\', '"']
  | '\\' => ['\\', '\\']
  | '\x08' => ['\\', 'b']
  | '\x0c' => ['\\', 'f']
  | '\n' => ['\\', 'n']
  | '\r' => ['\\', 'r']
  | '\t' => ['\\', 't']
  | c =>
      if c.toNat < 32 then
        ['\\', 'u', '0', '0', hexDigit (c.toNat / 16), hexDigit (c.toNat % 16)]
      else [c]

/-- The characters of a quoted text and its closing quote, before what follows. -/
def writeChars : List Char → List Char → List Char
  | [], after => '"' :: after
  | c :: rest, after => escaped c ++ writeChars rest after

/-- A quoted text, before what follows. -/
def writeString (s : String) (after : List Char) : List Char :=
  '"' :: writeChars s.toList after

mutual

/-- The compact text of a value, before what follows. -/
def write : Value → List Char → List Char
  | .null, after => 'n' :: 'u' :: 'l' :: 'l' :: after
  | .bool true, after => 't' :: 'r' :: 'u' :: 'e' :: after
  | .bool false, after => 'f' :: 'a' :: 'l' :: 's' :: 'e' :: after
  | .number n, after => n.text ++ after
  | .string s, after => writeString s after
  | .array [], after => '[' :: ']' :: after
  | .array (v :: rest), after => '[' :: write v (writeItems rest after)
  | .object [], after => '\x7b' :: '\x7d' :: after
  | .object ((name, v) :: rest), after =>
      '\x7b' :: writeString name (':' :: write v (writeMembers rest after))

/-- The items after the first one and the closing bracket. -/
def writeItems : List Value → List Char → List Char
  | [], after => ']' :: after
  | v :: rest, after => ',' :: write v (writeItems rest after)

/-- The members after the first one and the closing brace. -/
def writeMembers : List (String × Value) → List Char → List Char
  | [], after => '\x7d' :: after
  | (name, v) :: rest, after =>
      ',' :: writeString name (':' :: write v (writeMembers rest after))

end

/-- A line break and the indentation of a level. -/
def newLine (level : Nat) (after : List Char) : List Char :=
  '\n' :: (List.replicate (2 * level) ' ' ++ after)

mutual

/-- The indented text of a value at a level, before what follows. -/
def writePretty (level : Nat) : Value → List Char → List Char
  | .array [], after => '[' :: ']' :: after
  | .array (v :: rest), after =>
      '[' :: newLine (level + 1) (writePretty (level + 1) v (writePrettyItems level rest after))
  | .object [], after => '\x7b' :: '\x7d' :: after
  | .object ((name, v) :: rest), after =>
      '\x7b' :: newLine (level + 1) (writeString name (':' :: ' ' ::
        writePretty (level + 1) v (writePrettyMembers level rest after)))
  | .null, after => write .null after
  | .bool b, after => write (.bool b) after
  | .number n, after => write (.number n) after
  | .string s, after => write (.string s) after

/-- The items after the first one and the closing bracket, of an array at a level. -/
def writePrettyItems (level : Nat) : List Value → List Char → List Char
  | [], after => newLine level (']' :: after)
  | v :: rest, after =>
      ',' :: newLine (level + 1) (writePretty (level + 1) v (writePrettyItems level rest after))

/-- The members after the first one and the closing brace, of an object at a level. -/
def writePrettyMembers (level : Nat) : List (String × Value) → List Char → List Char
  | [], after => newLine level ('\x7d' :: after)
  | (name, v) :: rest, after =>
      ',' :: newLine (level + 1) (writeString name (':' :: ' ' ::
        writePretty (level + 1) v (writePrettyMembers level rest after)))

end

/-- The compact text of a value. -/
def compact (v : Value) : String :=
  String.ofList (v.write [])

/-- The indented text of a value. -/
def pretty (v : Value) : String :=
  String.ofList (v.writePretty 0 [])

/-- How messages name a value: its compact text, or a marker when there is none. -/
def describe : Option Value → String
  | some v => v.compact
  | none => "<missing>"

end TypedJson.Value
