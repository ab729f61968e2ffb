/-!
# Pieces and lines of a text

`splitAt` cuts a text at a character. Lines are cut at line feeds: a carriage
return right before a line feed belongs to the line end, and a final line end
opens no further line.
-/

set_option autoImplicit false

namespace TypedJson.Text

/-- The pieces between the places where a character stands; always at least one. -/
def splitAt (separator : Char) : List Char → List (List Char)
  | [] => [[]]
  | c :: rest =>
      if c = separator then [] :: splitAt separator rest
      else
        match splitAt separator rest with
        | [] => [[c]]
        | piece :: more => (c :: piece) :: more

/-- Drops one carriage return at the end of a line. -/
def dropReturn (line : List Char) : List Char :=
  if line.getLast? = some '\r' then line.dropLast else line

/-- The lines of the pieces between line feeds: a piece that a line feed ends loses
its carriage return, and an empty last piece is no line. -/
def closeLines : List (List Char) → List (List Char)
  | [] => []
  | [last] => if last.isEmpty then [] else [last]
  | line :: next :: more => dropReturn line :: closeLines (next :: more)

/-- The lines of a text, without their ends. -/
def lines (s : String) : List String :=
  (closeLines (splitAt '\n' s.toList)).map String.ofList

/-- Closed ranges of the code points that are white space. -/
def blanks : List (Nat × Nat) :=
  [(0x9, 0xd), (0x20, 0x20), (0x85, 0x85), (0xa0, 0xa0), (0x1680, 0x1680), (0x2000, 0x200a),
  (0x2028, 0x2029), (0x202f, 0x202f), (0x205f, 0x205f), (0x3000, 0x3000)]

/-- A white space character. -/
def isBlankChar (c : Char) : Bool :=
  blanks.any fun range => range.1 ≤ c.toNat && c.toNat ≤ range.2

/-- A text of nothing but white space. -/
def isBlank (s : String) : Bool :=
  s.toList.all isBlankChar

end TypedJson.Text
