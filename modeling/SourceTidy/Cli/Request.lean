import SourceTidy.Config.Load
import SourceTidy.Task.Builtin

/-!
# Requests

What the command line asks for, and what it means on a host: which path is looked at, and under which settings. What is
asked for only switches things on: it never takes back what the settings say.
-/

namespace SourceTidy.Cli

open SourceTidy.Config (LoadError Settings)

/-- What a command is asked for, as it was written. -/
structure Request where
  path : Option Text := none
  ignore : List Text := []
  skip : List Text := []
  fix : Bool := false
  eol : Bool := false
  strictTypes : Bool := false
  shortArrays : Bool := false
  noProgress : Bool := false
  noColor : Bool := false
  emoji : Bool := false
  configFile : Option Text := none
  debug : Bool := false
  deriving DecidableEq, Repr

/-- The paths of a request, as they were written. -/
def Request.writtenPaths (r : Request) : List Text := r.path.toList ++ r.configFile.toList

/-- Whether a text holds the code point that no path can hold. -/
def holdsNull (t : Text) : Bool := t.contains Path.null

/-- Where a command runs. -/
structure Host where
  tree : Tree
  work : Location := []
  /-- The home directory of a user by name; the one who runs the command has no name. -/
  home : Text → Option Text := fun _ => none
  /-- What settings are loaded with. -/
  means : Config.Means := .usual

/-- What a command is asked for, with its paths resolved and its values cleaned. -/
structure Options where
  path : Path
  ignore : List Text := []
  skip : List Text := []
  fix : Bool := false
  eol : Bool := false
  strictTypes : Bool := false
  shortArrays : Bool := false
  noProgress : Bool := false
  noColor : Bool := false
  emoji : Bool := false
  configFile : Option Path := none
  debug : Bool := false
  deriving DecidableEq, Repr

/-- Why a command does not start. -/
inductive StartError where
  | missing (path : Path)
  /-- The system does not take a path. -/
  | refused (failure : SystemFailure)
  | load (e : LoadError)
  | unknownTasks (names : List Text)
  | noHome
  | linkLoop (path : Path)
  /-- A path holds a code point that no path can hold. -/
  | nullInPath

namespace StartError

/-- Whether a failure is one that commands answer for; the others come through from what they use. -/
def isOwn : StartError → Bool
  | missing _ | unknownTasks _ => true
  | load e => e.isOwn
  | refused _ | noHome | linkLoop _ | nullInPath => false

/-- The wording of a failure but for the complaints about settings. -/
def headline : StartError → Text
  | missing p => "Path '" ++ p.text ++ "' does not exist"
  | refused f => f.message
  | load e => e.headline
  | unknownTasks names => "Unknown task(s) to skip: " ++ Text.join ", " names
  | noHome => "Could not determine home directory."
  | linkLoop p => "Symlink loop from " ++ p.text.quoted
  | nullInPath => "embedded null byte"

/-- The wording of a failure. -/
def message : StartError → Text
  | load e => e.message
  | e => e.headline

end StartError

/-- Values without the blanks around them, and without those that are blank. -/
def cleanValues (values : List Text) : List Text := (values.map Text.strip).filter fun t => !t.isEmpty

namespace Host

/-- The sign that a home directory is written with. -/
def homeSign : CodePoint := '~'

/-- A path with the home directory in place of the sign for it. -/
def expandHome (h : Host) (p : Path) : Except StartError Path :=
  match p.anchor, p.parts with
  | .relative, (c :: user) :: rest =>
    if c = homeSign then
      match holdsNull user, h.home user with
      | true, _ => .error .nullInPath
      | false, some directory => .ok ((Path.ofText directory).append ⟨.relative, rest⟩)
      | false, none => .error .noHome
    else .ok p
  | _, _ => .ok p

/-- A path made absolute and free of links; links that go round in circles are refused. -/
def resolve (h : Host) (p : Path) : Except StartError Path :=
  let q := Tree.pathOf (h.tree.real h.work p)
  if holdsNull p.text then .error .nullInPath
  else
    match h.tree.locatePath [] q with
    | .error .tooManyLinks => .error (.linkLoop q)
    | _ => .ok q

/-- The path that a written path means. -/
def pathFor (h : Host) (t : Text) : Except StartError Path := h.expandHome (Path.ofText t) >>= h.resolve

/-- The options of a request. -/
def optionsFor (h : Host) (r : Request) : Except StartError Options := do
  let target ← match r.path with
    | some t => h.pathFor t
    | none => h.resolve (Tree.pathOf h.work)
  if !(← (h.tree.pathExists [] target).mapError .refused) then .error (.missing target)
  else
    let configFile ← r.configFile.mapM h.pathFor
    return {
      path := target, ignore := cleanValues r.ignore, skip := cleanValues r.skip, fix := r.fix, eol := r.eol,
      strictTypes := r.strictTypes, shortArrays := r.shortArrays, noProgress := r.noProgress, noColor := r.noColor,
      emoji := r.emoji, configFile, debug := r.debug }

end Host

/-- Settings with options on top. -/
def Options.over (o : Options) (s : Settings) : Settings where
  discovery := { s.discovery with ignore := s.discovery.ignore ++ o.ignore }
  tasks := {
    eol := s.tasks.eol || o.eol
    strictTypes := s.tasks.strictTypes || o.strictTypes
    shortArrays := s.tasks.shortArrays || o.shortArrays
    skip := s.tasks.skip ++ o.skip }
  output := {
    progress := s.output.progress && !o.noProgress
    color := s.output.color && !o.noColor
    emoji := s.output.emoji || o.emoji }
  fix := s.fix || o.fix

/-- The names that no task has, each once and in order. -/
def unknownNames (names : List Text) : List Text :=
  Text.sort (names.filter fun n => (Task.Builtin.ofName? n).isNone).eraseDups

/-- The settings that options lead to. -/
def Host.settingsFor (h : Host) (o : Options) : Except StartError Settings := do
  let loaded ← (Config.load h.means h.tree h.work o.path o.configFile).mapError .load
  let settings := o.over loaded.settings
  let unknown := unknownNames settings.tasks.skip
  if unknown.isEmpty then return settings else .error (.unknownTasks unknown)

/-- What a request means on a host. -/
def Host.prepare (h : Host) (r : Request) : Except StartError (Options × Settings) := do
  let options ← h.optionsFor r
  let settings ← h.settingsFor options
  return (options, settings)

end SourceTidy.Cli
