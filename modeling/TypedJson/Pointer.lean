import TypedJson.Text.Lines
import TypedJson.Value

/-!
# Pointers into values

A pointer is empty, or a list of tokens with a slash in front of each. In a token
`~1` stands for a slash and `~0` for a tilde. A token is the name of a member, or
the number of an item without a sign or leading zeros.
-/

set_option autoImplicit false

namespace TypedJson.Pointer

/-- A token with its escapes resolved; other tildes stand for themselves. -/
def unescape : List Char → List Char
  | [] => []
  | '~' :: '1' :: rest => '/' :: unescape rest
  | '~' :: '0' :: rest => '~' :: unescape rest
  | c :: rest => c :: unescape rest

/-- The tokens of a pointer. -/
def tokens? (pointer : String) : Option (List (List Char)) :=
  match pointer.toList with
  | [] => some []
  | '/' :: rest => some ((Text.splitAt '/' rest).map unescape)
  | _ => none

/-- The item number that a token gives. -/
def index? (token : List Char) : Option Nat :=
  match token with
  | [] => none
  | '0' :: _ :: _ => none
  | _ =>
      if token.all fun c => '0' ≤ c && c ≤ '9' then
        some (token.foldl (fun n c => n * 10 + (c.toNat - 48)) 0)
      else none

/-- The part of a value under one token. -/
def step (v : Value) (token : List Char) : Option Value :=
  match v with
  | .object members => Entries.find? (String.ofList token) members
  | .array items => (index? token).bind fun i => items[i]?
  | _ => none

/-- The part of a value under tokens in turn. -/
def follow (v : Value) : List (List Char) → Option Value
  | [] => some v
  | token :: rest => (step v token).bind fun part => follow part rest

/-- The part of a value that a pointer selects. -/
def select (pointer : String) (v : Value) : Option Value :=
  (tokens? pointer).bind (follow v)

end TypedJson.Pointer
