import TypedJson.Text.Invisible

/-!
# Quoted texts in messages

A text inside a message stands between double quotes. Quotes, backslashes and the
common controls are escaped, and characters without a glyph of their own are
spelled out by number, so that the message shows what the text holds.
-/

set_option autoImplicit false

namespace TypedJson.Text

/-- The escape that spells a character out by its code point. -/
def numbered (c : Char) : List Char :=
  '\\' :: 'u' :: '\x7b' :: (Nat.toDigits 16 c.toNat ++ ['\x7d'])

/-- One character of a quoted text. -/
def quotedChar (c : Char) : List Char :=
  match c with
  | '"' => ['\\', '"']
  | '\\' => ['\\', '\\']
  | '\n' => ['\\', 'n']
  | '\r' => ['\\', 'r']
  | '\t' => ['\\', 't']
  | '\x00' => ['\\', '0']
  | c => if isInvisible c then numbered c else [c]

/-- A text between quotes, with everything that would not show escaped. -/
def quoted (s : String) : String :=
  String.ofList ('"' :: (s.toList.flatMap quotedChar ++ ['"']))

end TypedJson.Text
