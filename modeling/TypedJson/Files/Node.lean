import TypedJson.Entries

/-!
# Trees of files

A `Node` is a directory with what it holds, a text, or a file that is no text. A
place in a tree is the list of names that lead to it from the top.
-/

set_option autoImplicit false

namespace TypedJson

/-- What can stand at a place. -/
inductive Node where
  | directory (entries : List (String × Node))
  | text (contents : String)
  | binary

namespace Node

instance : Inhabited Node := ⟨.directory []⟩

/-- A directory, whatever it holds. -/
def isDirectory : Node → Bool
  | .directory _ => true
  | _ => false

/-- The contents of a text. -/
def contents? : Node → Option String
  | .text contents => some contents
  | _ => none

/-- What a directory holds under a name. -/
def child? (name : String) : Node → Option Node
  | .directory entries => Entries.find? name entries
  | _ => none

/-- The names in a directory. -/
def names : Node → List String
  | .directory entries => Entries.names entries
  | _ => []

/-- What stands at a place. -/
def at? (node : Node) : List String → Option Node
  | [] => some node
  | name :: rest =>
      match node.child? name with
      | some child => child.at? rest
      | none => none

/-- Puts something at a place, in place of what stands there. Directories on the way
are made; a file on the way keeps its place, and nothing is put. -/
def put (new : Node) : List String → Node → Node
  | [], _ => new
  | name :: rest, .directory entries =>
      let old := (Entries.find? name entries).getD (.directory [])
      .directory (Entries.insert name (put new rest old) entries)
  | _ :: _, node => node

mutual

/-- The texts in a tree by their places, seen from the place where the tree stands. -/
def texts (place : List String) : Node → List (List String × String)
  | .directory entries => textsIn place entries
  | .text contents => [(place, contents)]
  | .binary => []

/-- The texts in what a directory holds. -/
def textsIn (place : List String) : List (String × Node) → List (List String × String)
  | [] => []
  | (name, node) :: rest => texts (place ++ [name]) node ++ textsIn place rest

end

mutual

/-- How many names lead to the deepest place of a tree. -/
def height : Node → Nat
  | .directory entries => heightIn entries
  | .text _ => 0
  | .binary => 0

/-- How many names lead to the deepest place of what a directory holds. -/
def heightIn : List (String × Node) → Nat
  | [] => 0
  | (_, node) :: rest => max (height node + 1) (heightIn rest)

end

end Node

end TypedJson
