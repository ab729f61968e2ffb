/-!
# Places in a text

A reader works on the characters still ahead of it, so a place in a text is given
by what remains. `Position.locate` turns such a place into a line and a column.
Lines count from 1; columns count UTF-8 bytes since the last line feed.
-/

set_option autoImplicit false

namespace TypedJson

/-- A line, from 1, and the number of bytes before the place on that line. -/
structure Position where
  line : Nat
  column : Nat
  deriving DecidableEq, Repr

namespace Position

/-- The position before the first character of a text. -/
def start : Position := ⟨1, 0⟩

/-- The position after one more character. -/
def advance (p : Position) (c : Char) : Position :=
  if c = '\n' then ⟨p.line + 1, 0⟩ else ⟨p.line, p.column + c.utf8Size⟩

/-- The position after all the characters of a list. -/
def advanceAll (p : Position) (cs : List Char) : Position :=
  cs.foldl advance p

/-- The position some bytes further on, which may lie inside a character. The end
of the text stops the walk. -/
def advanceBytes (p : Position) : Nat → List Char → Position
  | _, [] => p
  | bytes, c :: cs =>
      if bytes = 0 then p
      else if c.utf8Size ≤ bytes then advanceBytes (p.advance c) (bytes - c.utf8Size) cs
      else ⟨p.line, p.column + bytes⟩

/-- The position in `text` of a place `bytes` past the point where `rest` remains. -/
def locate (text rest : List Char) (bytes : Nat) : Position :=
  ((start.advanceAll (text.take (text.length - rest.length))).advanceBytes bytes rest)

/-- Written after the cause of an error. -/
def suffix (p : Position) : String :=
  " at line " ++ toString p.line ++ " column " ++ toString p.column

end Position

end TypedJson
