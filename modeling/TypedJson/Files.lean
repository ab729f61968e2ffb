import TypedJson.Files.Node
import TypedJson.Files.Path

/-!
# Files under a working directory

`Files` is what a command sees of the file system: a tree, and the place that the
command works in. A path is followed component by component, from the top of the
tree if it starts with a slash and from the working directory if not. `read`,
`write` and `makeDirectories` say what they need of the way there and which error
stands for what is missing.
-/

set_option autoImplicit false

namespace TypedJson

/-- A tree of files, and the place of the working directory in it. -/
structure Files where
  here : List String
  root : Node

namespace Files

/-- Puts something at a place. -/
def put (files : Files) (place : List String) (node : Node) : Files :=
  { files with root := node.put place files.root }

/-- No files but the working directory. -/
def empty (here : List String) : Files :=
  put ⟨here, .directory []⟩ here (.directory [])

/-- What stands at a place. -/
def node? (files : Files) (place : List String) : Option Node :=
  files.root.at? place

/-- The text at a place. -/
def contents? (files : Files) (place : List String) : Option String :=
  (files.node? place).bind Node.contents?

/-- A directory stands at a place. -/
def hasDirectory (files : Files) (place : List String) : Bool :=
  (files.node? place).any Node.isDirectory

/-- One component further. -/
def step (files : Files) (place : List String) (component : String) :
    Except FileError (List String) :=
  match files.node? place with
  | none => .error .notFound
  | some (.directory entries) =>
      if Path.isIdle component then .ok place
      else if component == ".." then .ok place.dropLast
      else if Path.maxComponent < component.utf8ByteSize then .error .nameTooLong
      else if (Entries.find? component entries).isSome then .ok (place ++ [component])
      else .error .notFound
  | some _ => .error .notDirectory

/-- Follows components in turn. -/
def follow (files : Files) (place : List String) : List String → Except FileError (List String)
  | [] => .ok place
  | component :: rest => do
      let next ← files.step place component
      files.follow next rest

/-- Where a path starts. -/
def start (files : Files) (path : String) : List String :=
  if Path.isAbsolute path then [] else files.here

/-- Where a path leads. -/
def locate (files : Files) (path : String) : Except FileError (List String) := do
  Path.usable path
  files.follow (files.start path) (Path.components path)

/-- The text at a path. -/
def read (files : Files) (path : String) : Except FileError String := do
  let place ← files.locate path
  match files.node? place with
  | some (.text contents) => .ok contents
  | some (.directory _) => .error .isDirectory
  | some .binary => .error .notText
  | none => .error .notFound

/-- Something stands at a path. -/
def isPresent (files : Files) (path : String) : Bool :=
  match files.locate path with
  | .ok _ => true
  | .error _ => false

/-- A directory stands at a path. -/
def isDirectory (files : Files) (path : String) : Bool :=
  match files.locate path with
  | .ok place => files.hasDirectory place
  | .error _ => false

/-- The names in a directory, in order. -/
def children (files : Files) (path : String) : List String :=
  match files.locate path with
  | .ok place =>
      match files.node? place with
      | some node => node.names.mergeSort fun a b => a ≤ b
      | none => []
  | .error _ => []

/-- Follows components in turn and makes the directories that are missing; `made`
says that one has been made. A file in the way bars it as no directory, but as
something that exists when it is the last component or a directory has been made
before it. What has been made stays. -/
def makeFrom (files : Files) (place : List String) (made : Bool) :
    List String → Files × Option FileError
  | [] => (files, none)
  | component :: rest =>
      match files.step place component with
      | .ok next =>
          if files.hasDirectory next then files.makeFrom next made rest
          else (files, some (if made || rest.isEmpty then .alreadyExists else .notDirectory))
      | .error .notFound =>
          let next := place ++ [component]
          (files.put next (.directory [])).makeFrom next true rest
      | .error e => (files, some e)

/-- Makes a directory and those it lies in, where they are missing. -/
def makeDirectories (files : Files) (path : String) : Files × Option FileError :=
  if path.isEmpty then (files, none)
  else
    match Path.usable path with
    | .ok _ => files.makeFrom (files.start path) false (Path.components path)
    | .error e => (files, some e)

/-- Writes a text at a name in the directory at a place. -/
def writeIn (files : Files) (place : List String) (name contents : String) :
    Except FileError Files :=
  match files.step place name with
  | .ok target =>
      if files.hasDirectory target then .error .isDirectory
      else .ok (files.put target (.text contents))
  | .error .notFound => .ok (files.put (place ++ [name]) (.text contents))
  | .error e => .error e

/-- Writes a text at a path, in place of what stands there. A path that ends in
points leads to a directory if anywhere, and one that ends in a slash asks for a
directory; neither can be written. -/
def write (files : Files) (path contents : String) : Except FileError Files := do
  Path.usable path
  let parts := Path.dropSlashes (Path.components path)
  let name := parts.getLast?.getD ""
  if Path.isIdle name || name == ".." then
    let _ ← files.follow (files.start path) parts
    .error .isDirectory
  else
    let place ← files.follow (files.start path) parts.dropLast
    if parts.length < (Path.components path).length then
      .error (if files.hasDirectory place then .isDirectory else .notDirectory)
    else files.writeIn place name contents

/-- The texts of the second files that do not stand so in the first. -/
def changes (before after : Files) : List (List String × String) :=
  (after.root.texts []).filter fun (place, contents) => before.contents? place != some contents

end Files

end TypedJson
