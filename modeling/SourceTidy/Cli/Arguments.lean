import SourceTidy.Cli.Request

/-!
# Arguments

How a command line is read: the name of a command, then its options. An option has a long name, which may take its value
after an equals sign, and may have a short one. Short options can be written together, and the last of them can take the
rest of the argument as its value. Values may look like options. Nothing may be left over, but before that is found out
the paths are looked at, and one that no path can be ends the reading.
-/

namespace SourceTidy.Cli

/-- The commands. -/
inductive Command where
  /-- Looks at files and reports, and writes fixes on demand. -/
  | check
  /-- Lists the tasks that would run. -/
  | tasks
  deriving DecidableEq, Repr

/-- The options. -/
inductive Choice where
  | path
  | ignore
  | fix
  | eol
  | noProgress
  | strictTypes
  | shortArrays
  | skip
  | noColor
  | emoji
  | config
  | debug
  deriving DecidableEq, Repr

namespace Choice

/-- The long name of an option. -/
def longName : Choice → Text
  | path => "--path"
  | ignore => "--ignore"
  | fix => "--fix"
  | eol => "--eol"
  | noProgress => "--no-progress"
  | strictTypes => "--strict-types"
  | shortArrays => "--short-arrays"
  | skip => "--skip"
  | noColor => "--no-color"
  | emoji => "--emoji"
  | config => "--config"
  | debug => "--debug"

/-- The short name of an option, if it has one. -/
def shortName? : Choice → Option CodePoint
  | path => some 'd'
  | ignore => some 'i'
  | fix => some 'f'
  | eol => some 'l'
  | config => some 'c'
  | _ => none

/-- Whether an option takes a value. -/
def takesValue : Choice → Bool
  | path | ignore | skip | config => true
  | _ => false

/-- A request with an option that takes no value. -/
def switchOn (c : Choice) (r : Request) : Request :=
  match c with
  | fix => { r with fix := true }
  | eol => { r with eol := true }
  | noProgress => { r with noProgress := true }
  | strictTypes => { r with strictTypes := true }
  | shortArrays => { r with shortArrays := true }
  | noColor => { r with noColor := true }
  | emoji => { r with emoji := true }
  | debug => { r with debug := true }
  | _ => r

/-- A request with an option that takes a value. -/
def give (c : Choice) (value : Text) (r : Request) : Request :=
  match c with
  | path => { r with path := some value }
  | config => { r with configFile := some value }
  | ignore => { r with ignore := r.ignore ++ [value] }
  | skip => { r with skip := r.skip ++ [value] }
  | _ => r

end Choice

/-- The options of a command. -/
def Command.choices : Command → List Choice
  | .check =>
    [.path, .ignore, .fix, .eol, .noProgress, .strictTypes, .shortArrays, .skip, .noColor, .emoji, .config, .debug]
  | .tasks => [.path, .eol, .strictTypes, .shortArrays, .skip, .config]

/-- The command of a name, if there is one. -/
def Command.ofName? (name : Text) : Option Command :=
  if name = "check" then some .check else if name = "tasks" then some .tasks else none

/-- Why a command line cannot be read. -/
inductive UsageError where
  | noCommand
  | unknownCommand (name : Text)
  | unknownOption (written : Text)
  | missingValue (written : Text)
  | unexpectedValue (written : Text)
  | leftOver (argument : Text)
  /-- A path is given that holds a code point that no path can hold. -/
  | nullInPath
  deriving DecidableEq, Repr

namespace Arguments

/-- The hyphen that options start with. -/
def hyphen : CodePoint := '-'

/-- What ends the options. -/
def optionsEnd : Text := "--"

/-- Whether an argument is written as an option. -/
def isOption (a : Text) : Bool := a.head? == some hyphen && 1 < a.length

/-- What a part of an argument asks for, and whether the value of its last option is still to come. -/
abbrev Read := Request × Option Choice

/-- A long option: its name, and a value after an equals sign. -/
def long (choices : List Choice) (r : Request) (a : Text) : Except UsageError Read :=
  let name := a.takeWhile (· != ('=' : CodePoint))
  match choices.find? (·.longName = name), a.drop name.length with
  | none, _ => .error (.unknownOption a)
  | some c, [] => .ok (if c.takesValue then (r, some c) else (c.switchOn r, none))
  | some c, _ :: value => if c.takesValue then .ok (c.give value r, none) else .error (.unexpectedValue a)

/-- Short options written together. -/
def short (choices : List Choice) (r : Request) : Text → Except UsageError Read
  | [] => .ok (r, none)
  | letter :: rest =>
    match choices.find? (·.shortName? = some letter) with
    | none => .error (.unknownOption [hyphen, letter])
    | some c =>
      if c.takesValue then .ok (if rest.isEmpty then (r, some c) else (c.give rest r, none))
      else short choices (c.switchOn r) rest

/-- An argument that is written as an option. -/
def option (choices : List Choice) (r : Request) (a : Text) : Except UsageError Read :=
  if Text.startsWith a "--" then long choices r a else short choices r (a.drop 1)

/-- The request of some arguments, on top of another, when an option may still wait for its value, and the arguments
that are left over. -/
def request (choices : List Choice) : Read → List Text → Except UsageError (Request × List Text)
  | (r, none), [] => .ok (r, [])
  | (_, some c), [] => .error (.missingValue c.longName)
  | (r, some c), value :: rest => request choices (c.give value r, none) rest
  | (r, none), a :: rest =>
    if a = optionsEnd then .ok (r, rest)
    else if isOption a then do request choices (← option choices r a) rest
    else do
      let (r, left) ← request choices (r, none) rest
      return (r, a :: left)

/-- The request when all arguments have been read. -/
def closed : Request × List Text → Except UsageError Request
  | (r, left) =>
    if r.writtenPaths.any holdsNull then .error .nullInPath
    else
      match left with
      | [] => .ok r
      | a :: _ => .error (.leftOver a)

/-- The command and the request of a command line without a mark before the name of the command. -/
def named : List Text → Except UsageError (Command × Request)
  | [] => .error .noCommand
  | name :: rest =>
    match Command.ofName? name with
    | some c => do return (c, ← closed (← request c.choices ({}, none) rest))
    | none => .error (.unknownCommand name)

/-- The command and the request of a command line. -/
def read : List Text → Except UsageError (Command × Request)
  | [] => .error .noCommand
  | a :: rest => if a = optionsEnd then named rest else if isOption a then .error (.unknownOption a) else named (a :: rest)

end Arguments
end SourceTidy.Cli
