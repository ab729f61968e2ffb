import TypedJson.Files

/-!
# Path patterns

In a pattern `?` stands for one character, `*` for any run of characters and
`[..]` for one character of a set, all within one component; a component `**`
stands for any number of directories. `Glob.search` gives the paths that match, in
the order of their names, a directory before what it holds.
-/

set_option autoImplicit false

namespace TypedJson

namespace Glob

/-- What a set of characters is made of: single characters are ranges too. -/
structure CharRange where
  first : Char
  last : Char
  deriving DecidableEq

/-- One element of a pattern. -/
inductive Token where
  | char (c : Char)
  | anyChar
  | anyRun
  | anyDirectories
  | within (ranges : List CharRange)
  | outside (ranges : List CharRange)
  deriving DecidableEq

/-- Why a text is no pattern. -/
inductive PatternFault where
  | wildcards
  | recursiveWildcards
  | invalidRange
  deriving DecidableEq, Repr

/-- A faulty pattern: the place, in characters, and the fault. -/
structure PatternError where
  place : Nat
  fault : PatternFault
  deriving DecidableEq, Repr

/-- The wording of a pattern error. -/
def PatternError.message (e : PatternError) : String :=
  let fault :=
    match e.fault with
    | .wildcards => "wildcards are either regular `*` or recursive `**`"
    | .recursiveWildcards => "recursive wildcards must form a single path component"
    | .invalidRange => "invalid range pattern"
  "Pattern syntax error near position " ++ toString e.place ++ ": " ++ fault

/-- The ranges of a set: a dash between two characters makes a range of them. -/
def ranges : List Char → List CharRange
  | first :: '-' :: last :: rest => ⟨first, last⟩ :: ranges rest
  | c :: rest => ⟨c, c⟩ :: ranges rest
  | [] => []

/-- The characters of a set and what remains after its closing bracket; the first
character belongs to the set whatever it is. -/
def charSet? : List Char → Option (List Char × List Char)
  | [] => none
  | first :: rest =>
      match rest.dropWhile fun c => c ≠ ']' with
      | [] => none
      | _ :: after => some (first :: rest.takeWhile fun c => c ≠ ']', after)

/-- The token of a set, after its opening bracket, and what remains. -/
def setToken? : List Char → Option (Token × List Char)
  | '!' :: rest => (charSet? rest).map fun (set, after) => (.outside (ranges set), after)
  | rest => (charSet? rest).map fun (set, after) => (.within (ranges set), after)

/-- The tokens of a pattern from character `i` on; `before` is the character in
front. The number of characters left bounds the number of tokens. -/
def tokensFrom : (fuel i : Nat) → (before : Option Char) → List Char →
    Except PatternError (List Token)
  | _, _, _, [] => .ok []
  | 0, _, _, _ :: _ => .ok []
  | fuel + 1, i, before, c :: rest =>
      match c with
      | '?' => do
          let more ← tokensFrom fuel (i + 1) (some c) rest
          .ok (.anyChar :: more)
      | '*' =>
          let stars := 1 + (rest.takeWhile (· == '*')).length
          let after := rest.dropWhile (· == '*')
          if 2 < stars then .error ⟨i + 2, .wildcards⟩
          else if stars = 1 then do
            let more ← tokensFrom fuel (i + 1) (some c) rest
            .ok (.anyRun :: more)
          else if before.isSome && before ≠ some '/' then .error ⟨i - 1, .recursiveWildcards⟩
          else
            match after with
            | [] => .ok [.anyDirectories]
            | '/' :: after => do
                let more ← tokensFrom fuel (i + 3) (some '/') after
                .ok (.anyDirectories :: more)
            | _ => .error ⟨i + 2, .recursiveWildcards⟩
      | '[' =>
          match setToken? rest with
          | none => .error ⟨i, .invalidRange⟩
          | some (token, after) => do
              let more ← tokensFrom fuel (i + 1 + (rest.length - after.length)) (some ']') after
              .ok (token :: more)
      | c => do
          let more ← tokensFrom fuel (i + 1) (some c) rest
          .ok (.char c :: more)

/-- The pattern of one component. -/
abbrev Pattern := List Token

/-- The tokens of a pattern. -/
def tokens (cs : List Char) : Except PatternError Pattern :=
  tokensFrom cs.length 0 none cs

/-- A character in one of some ranges. -/
def inRanges (ranges : List CharRange) (c : Char) : Bool :=
  ranges.any fun range => range.first ≤ c && c ≤ range.last

/-- A list and all that remains of it as characters are dropped. -/
def remainders : List Char → List (List Char)
  | [] => [[]]
  | c :: rest => (c :: rest) :: remainders rest

/-- The characters that a token for one character stands for; other tokens take none. -/
def Token.takes : Token → Char → Bool
  | .char d, c => c == d
  | .anyChar, _ => true
  | .within ranges, c => inRanges ranges c
  | .outside ranges, c => !inRanges ranges c
  | .anyRun, _ => false
  | .anyDirectories, _ => false

/-- What can remain of a name after one more token. All entries are ends of the same
name, the longest first, so those of the longest are all there are after a run. -/
def advance (rests : List (List Char)) : Token → List (List Char)
  | .anyRun | .anyDirectories =>
      match rests with
      | [] => []
      | longest :: _ => remainders longest
  | token => rests.filterMap fun
      | [] => none
      | c :: rest => if token.takes c then some rest else none

/-- A name matches a pattern: after the last token nothing may remain. -/
def isMatch (pattern : Pattern) (cs : List Char) : Bool :=
  (pattern.foldl advance [cs]).any List.isEmpty

/-- The one name that a pattern without wildcards matches. -/
def literal? : Pattern → Option (List Char)
  | [] => some []
  | .char c :: more => (literal? more).map (c :: ·)
  | _ :: _ => none

/-- A component that stands for any number of directories. -/
def isRecursive (pattern : Pattern) : Bool :=
  pattern.contains .anyDirectories

/-- A search through files; with `directories` only directories are found. -/
structure Search where
  files : Files
  directories : Bool

namespace Search

/-- The working directory itself, however it is written. -/
def isHere (path : String) : Bool :=
  path.toList.head? == some '.' && (Path.components path).all Path.isIdle

/-- A path that the search has come to: found, or with a name that is still to be
matched with the first of some patterns. -/
inductive Candidate where
  | found (path : String)
  | named (path name : String) (patterns : List Pattern)

/-- A name in a directory; the working directory is not written. -/
def inside (directory name : String) : String :=
  if isHere directory then name else Path.join directory name

/-- The candidates in a directory for the first of some patterns. A pattern without
wildcards names its one candidate. The names `.` and `..` match only a pattern that
starts with a point. -/
def candidates (search : Search) : List Pattern → (directory : String) → List Candidate
  | [], _ => []
  | pattern :: more, directory =>
      let add (path : String) : List Candidate :=
        if more.isEmpty then [.found path] else search.candidates more path
      match literal? pattern with
      | some cs =>
          let name := String.ofList cs
          let path := inside directory name
          let leads :=
            if name == "." || name == ".." then search.files.isDirectory directory
            else search.files.isPresent path
          if leads then add path else []
      | none =>
          if search.files.isDirectory directory then
            let special (name : String) : List Candidate :=
              if pattern.head? == some (.char '.') && isMatch pattern name.toList then
                add (Path.join directory name)
              else []
            special ".." ++ special "." ++ (search.files.children directory).map fun name =>
              .named (inside directory name) name (pattern :: more)
          else []

/-- A path that all patterns have matched. -/
def accept (search : Search) (path : String) : List String :=
  if search.directories && !search.files.isDirectory path then [] else [path]

/-- The paths found from a candidate. Every step goes down a directory or on to the
next pattern. -/
def expand (search : Search) : (fuel : Nat) → Candidate → List String
  | 0, _ => []
  | _ + 1, .found path => search.accept path
  | _ + 1, .named _ _ [] => []
  | fuel + 1, .named path name (pattern :: more) =>
      let further (patterns : List Pattern) : List String :=
        (search.candidates patterns path).flatMap (search.expand fuel)
      let matched (patterns : List Pattern) : List String :=
        match patterns with
        | [] => []
        | pattern :: more =>
            if isMatch pattern name.toList then
              if more.isEmpty then search.accept path else further more
            else []
      if isRecursive pattern then
        let after := more.dropWhile isRecursive
        if search.files.isDirectory path then
          (if after.isEmpty then [path] else matched after) ++ further (pattern :: after)
        else matched after
      else matched (pattern :: more)

end Search

/-- The components of a pattern: slashes at the start only say where the search
starts, and a slash at the end opens no further component. -/
def componentsOf (cs : List Char) : List (List Char) :=
  let pieces := Text.splitAt '/' (cs.dropWhile (· == '/'))
  if pieces.getLast? = some [] then pieces.dropLast else pieces

/-- The paths that a pattern matches. -/
def search (files : Files) (pattern : String) : Except PatternError (List String) := do
  let cs := pattern.toList
  let _ ← tokens cs
  let patterns ← (componentsOf cs).mapM tokens
  let search : Search := ⟨files, cs.getLast? == some '/'⟩
  let fuel := (patterns.length + 1) * (files.root.height + 2)
  let base := if Path.isAbsolute pattern then "/" else "."
  .ok ((search.candidates patterns base).flatMap (search.expand fuel))

end Glob

end TypedJson
