import Std.Time
import TypedJson.Command.Arguments
import TypedJson.Command.Run

/-!
# The command line

The outer layer around `Command.ofArguments` and `Command.run`: it reads the files
that a command names, runs the command on them, writes what has changed and prints.
Only named paths are looked at, so a pattern ranges over what the other words name.
-/

set_option autoImplicit false

namespace TypedJson

/-- The paths that a command reads or writes, as they are written. -/
def Command.paths : Command → List String
  | .check inputs schema _ report => inputs.patterns ++ [schema] ++ report.toList
  | .encode schema input _ out => [schema, input] ++ out.toList
  | .validateSchema inputs _ => inputs.patterns
  | .bootstrap _ out => out.toList

/-- One component further without a look at the files. -/
def Path.enter (place : List String) (component : String) : List String :=
  if isIdle component then place
  else if component == ".." then place.dropLast
  else place ++ [component]

/-- The places on the way along a path, the last one included. -/
def Path.places (place : List String) : List String → List (List String)
  | [] => []
  | component :: rest =>
      let next := enter place component
      next :: places next rest

/-- The written form of a place. -/
def Path.written (place : List String) : String :=
  "/" ++ String.intercalate "/" place

/-- What stands at a place. -/
def probe (place : List String) : IO (Option Node) := do
  try
    let bytes ← IO.FS.readBinFile (Path.written place)
    match String.fromUTF8? bytes with
    | some contents => return some (.text contents)
    | none => return some .binary
  catch
    | .inappropriateType .. => return some (.directory [])
    | _ => return none

/-- The files on the ways along paths. -/
def loadPaths (here : List String) (paths : List String) : IO Files := do
  let mut files := Files.empty here
  for path in paths do
    for place in Path.places (files.start path) (Path.components path) do
      if (files.node? place).isNone then
        if let some node ← probe place then
          files := files.put place node
  return files

/-- Writes what a command has changed. -/
def saveChanges (before after : Files) : IO Unit := do
  for (place, contents) in before.changes after do
    IO.FS.createDirAll (Path.written place.dropLast)
    IO.FS.writeFile (Path.written place) contents

/-- The present time, in universal time and to the nanosecond. -/
def timestamp : IO String := do
  let now ← Std.Time.Timestamp.now
  let time := Std.Time.DateTime.ofTimestamp now .UTC
  return time.format "uuuu-MM-dd'T'HH:mm:ss.SSSSSSSSSxxx"

/-- What is printed for words that make no command. -/
def UsageError.text : UsageError → String
  | .help | .noCommand =>
      "usage: check | encode | validate-schema | bootstrap, each with its options"
  | .version => "0.1.0"
  | .unknownCommand => "error: unrecognized subcommand"
  | .missingOption => "error: a required option is missing"
  | .unknownArgument => "error: unexpected argument"
  | .invalidValue => "error: an option lacks a right value"
  | .invalidNumber => "error: an option needs a number"
  | .repeatedOption => "error: an option is given more than once"
  | .unexpectedValue => "error: an option takes no value"

/-- Prints what words that make no command lead to. -/
def refuse (e : UsageError) : IO UInt32 := do
  if e.exit = 0 then IO.println e.text else IO.eprintln e.text
  return UInt32.ofNat e.exit

/-- Runs a command on the files it names. -/
def perform (command : Command) : IO UInt32 := do
  let here := (Path.components (toString (← IO.currentDir))).filter fun part => !Path.isIdle part
  let files ← loadPaths here command.paths
  let outcome := command.run (← timestamp) files
  saveChanges files outcome.files
  IO.print outcome.stdout
  IO.eprint outcome.stderr
  if let some e := outcome.error then
    IO.eprintln ("error: " ++ e.message)
  return UInt32.ofNat outcome.exit

end TypedJson

/-- Reads the words of the command line and runs their command. -/
def main (words : List String) : IO UInt32 :=
  match TypedJson.Command.ofArguments words with
  | .ok command => TypedJson.perform command
  | .error e => TypedJson.refuse e
