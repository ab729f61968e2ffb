import TypedJson.Text.Lines

/-!
# Paths

A path is a text that is cut at its slashes. Empty components and single points
lead nowhere new, and two points lead to the directory above. `Path.usable` says
which texts can be looked up at all.
-/

set_option autoImplicit false

namespace TypedJson

/-- Why a file could not be read or written. -/
inductive FileError where
  | notFound
  | alreadyExists
  | notDirectory
  | isDirectory
  | nameTooLong
  | nulInName
  | notText
  deriving DecidableEq, Repr

/-- The wording of a file error. -/
def FileError.message : FileError → String
  | .notFound => "No such file or directory (os error 2)"
  | .alreadyExists => "File exists (os error 17)"
  | .notDirectory => "Not a directory (os error 20)"
  | .isDirectory => "Is a directory (os error 21)"
  | .nameTooLong => "File name too long (os error 36)"
  | .nulInName => "file name contained an unexpected NUL byte"
  | .notText => "stream did not contain valid UTF-8"

namespace Path

/-- The components of a path; empty ones are kept. -/
def components (path : String) : List String :=
  (Text.splitAt '/' path.toList).map String.ofList

/-- A component that leads nowhere new. -/
def isIdle (component : String) : Bool :=
  component == "" || component == "."

/-- A path that starts at the root. -/
def isAbsolute (path : String) : Bool :=
  path.toList.head? == some '/'

/-- The most bytes that a component may have. -/
def maxComponent : Nat := 255

/-- The most bytes that a path may have. -/
def maxLength : Nat := 4095

/-- A path that can be looked up. -/
def usable (path : String) : Except FileError Unit :=
  if path.toList.contains '\x00' then .error .nulInName
  else if path.isEmpty then .error .notFound
  else if maxLength < path.utf8ByteSize then .error .nameTooLong
  else .ok ()

/-- Drops the empty components that slashes at the end of a path make. -/
def dropSlashes (parts : List String) : List String :=
  (parts.reverse.dropWhile fun part => part == "").reverse

/-- Drops idle components at the end; the first component stays. -/
def trimEnd : List String → List String
  | [] => []
  | first :: rest => first :: (rest.reverse.dropWhile isIdle).reverse

/-- The path of the directory that holds a path, as it is written there: empty for a
bare name, and none for the root. -/
def parent? (path : String) : Option String :=
  match trimEnd (components path) with
  | [] => none
  | [first] => if first == "" then none else some ""
  | ["", _] => some "/"
  | parts => some (String.intercalate "/" (trimEnd parts.dropLast))

/-- A path inside a directory. -/
def join (directory name : String) : String :=
  if directory.toList.getLast? == some '/' then directory ++ name else directory ++ "/" ++ name

end Path

end TypedJson
