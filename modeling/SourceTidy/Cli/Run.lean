import SourceTidy.Cli.Arguments
import SourceTidy.Report.Status
import SourceTidy.Report.Table
import SourceTidy.Run.Plan

/-!
# Running commands

What a command prints, what becomes of the tree, and the exit status: zero when nothing is wrong with any file, one when
something is, and two when the command does not start. What is printed has to be UTF-8; the first line that is not stops
the command.
-/

namespace SourceTidy.Cli

open SourceTidy.Config (Settings)
open SourceTidy.Report (Status)

/-- Why a command stops before its end. -/
inductive Failure where
  | start (e : StartError)
  /-- A line cannot be printed. -/
  | print (e : Utf8.EncodeError)
  /-- The run was stopped. -/
  | stopped (reason : Run.StopReason)
  /-- The system does not take a path that the run came to. -/
  | refused (failure : SystemFailure)

/-- The wording of a failure. -/
def Failure.message : Failure → Text
  | start e => e.message
  | print e => e.message ++ "\n*** You may need to add PYTHONIOENCODING=utf-8 to your environment ***"
  | stopped reason => reason.message
  | refused f => f.message

/-- What has been printed, and the first part that could not be. -/
structure Screen where
  text : Text := []
  failure : Option Utf8.EncodeError := none
  deriving DecidableEq, Repr

namespace Screen

/-- The screen after one more text. -/
def print (s : Screen) (t : Text) : Screen :=
  match s.failure with
  | some _ => s
  | none =>
    match Utf8.surrogates? t with
    | none => { s with text := s.text ++ t }
    | some e => { s with failure := some e }

/-- The screen after some more texts. -/
def printAll (s : Screen) (ts : List Text) : Screen := ts.foldl print s

end Screen

/-- How a command ended. -/
structure Outcome where
  exitCode : Nat
  stdout : Text
  tree : Tree
  failure : Option Failure := none

/-- The exit status when nothing is wrong. -/
def exitOk : Nat := 0

/-- The exit status when something is wrong with a file, or a command stops before its end. -/
def exitFindings : Nat := 1

/-- The exit status when a command does not start. -/
def exitStartup : Nat := 2

/-- The outcome of a command that has come to its end with an exit status. -/
def finished (exitCode : Nat) (s : Screen) (t : Tree) : Outcome :=
  match s.failure with
  | none => ⟨exitCode, s.text, t, none⟩
  | some e => ⟨exitFindings, s.text, t, some (.print e)⟩

/-- The outcome of a command that does not start. -/
def refused (e : StartError) (t : Tree) : Outcome :=
  if e.isOwn then finished exitStartup (({} : Screen).print (Status.fail.line false ("Error: " ++ e.message))) t
  else ⟨exitFindings, [], t, some (.start e)⟩

/-! ## Checking -/

/-- The heading of every check. -/
def title : Text := "CodeChecker version 0.1.0"

/-- What is printed before a run. -/
def openingLines (o : Options) (s : Settings) : List Text :=
  let info := Status.info.line s.output.emoji
  [Report.line title, Report.line (List.replicate title.length ('-' : CodePoint))]
    ++ (if s.readOnly then [info "Running in read-only mode"] else []) ++ [info ("Scanning " ++ o.path.text)]

/-- What is printed after a run. -/
def closingLines (s : Settings) (r : Reporter) (v : Run.Verdict) : List Text :=
  let emoji := s.output.emoji
  let warnings := r.count .warning
  let hint : Text := if s.readOnly then " (run with --fix to correct fixable findings)" else []
  [Status.info.line emoji "Done."]
    ++ (if r.total = 0 then [] else [Status.info.line emoji ("Reported " ++ r.summary)])
    ++ (if warnings = 0 then [] else [Status.warn.line emoji (Text.ofNat warnings
      ++ " warning(s) reported, review them even though they do not fail the run")])
    ++ (if v.rewritten.isEmpty then []
      else [Status.info.line emoji ("Fixed " ++ Text.ofNat v.rewritten.length ++ " file(s)")])
    ++ [if v.success then Status.ok.line emoji ("Checked " ++ Text.ofNat v.files ++ " file(s), no problems left")
      else Status.fail.line emoji (Text.ofNat v.failed.length ++ " of " ++ Text.ofNat v.files
        ++ " file(s) have unresolved findings" ++ hint)]

/-- The exit status for a verdict. -/
def exitFor (v : Run.Verdict) : Nat := if v.success then exitOk else exitFindings

/-- The run that settings ask for. -/
def planFor (h : Host) (s : Settings) : Run.Plan where
  walk := { accept := s.discovery.acceptSet, ignore := s.discovery.ignoreSet, work := h.work }
  tasks := Task.Builtin.selected s.tasks
  readOnly := s.readOnly

/-- A run in the middle, and what has been printed of it. -/
structure Ongoing where
  state : Run.State
  screen : Screen

/-- A run that stopped: the tree as it is, what has been printed, and the reason. -/
structure Broken where
  tree : Tree
  stdout : Text
  failure : Failure

/-- The lines of the findings that one state has and an earlier one had not. -/
def linesSince (before after : Run.State) : List Text :=
  (after.world.reporter.findings.drop before.world.reporter.total).map fun f => (f.styled .usual false).printed

/-- What is done with a file: it is processed, and its findings are printed. A finding that cannot be printed stops the
run before the file is written. -/
def visit (p : Run.Plan) (root path : Path) (s : Ongoing) : Except Broken Ongoing :=
  match p.visit root path s.state with
  | .ok state =>
    let screen := s.screen.printAll (linesSince s.state state)
    match screen.failure with
    | none => .ok ⟨state, screen⟩
    | some e => .error ⟨s.state.world.tree, screen.text, .print e⟩
  | .error e =>
    let screen := s.screen.printAll (linesSince s.state e.state)
    .error ⟨s.state.world.tree, screen.text, (screen.failure.map .print).getD (.stopped e.reason)⟩

/-- Checks what options lead to under some settings. -/
def check (h : Host) (o : Options) (s : Settings) : Outcome :=
  let opening := ({} : Screen).printAll (openingLines o s)
  let start : Ongoing := ⟨{ world := { tree := h.tree } }, opening⟩
  match opening.failure with
  | some _ => finished exitFindings opening h.tree
  | none =>
    match (planFor h s).walk.run (·.state.world.tree) (visit (planFor h s) o.path) o.path start with
    | .ok p =>
      let v := p.state.verdict
      let world := p.state.world
      finished (exitFor v) (p.screen.printAll (closingLines s world.reporter v)) world.tree
    | .error (.missing root) => ⟨exitFindings, opening.text, h.tree, some (.start (.missing root))⟩
    | .error (.refused p f) => ⟨exitFindings, p.screen.text, p.state.world.tree, some (.refused f)⟩
    | .error (.stopped b) => ⟨exitFindings, b.stdout, b.tree, some b.failure⟩

/-! ## Listing tasks -/

/-- The table of some tasks. -/
def tableOf (ts : List Task) : Report.Table where
  title := "Pipeline tasks"
  columns := [(.right, "#"), (.left, "Task"), (.left, "Files")]
  rows := ts.zipIdx.map fun (t, i) => [Text.ofNat (i + 1), t.name, t.mask.getD "*"]

/-- Lists the tasks that settings ask for. -/
def listTasks (h : Host) (s : Settings) : Outcome :=
  finished exitOk (({} : Screen).print (tableOf (Task.Builtin.selected s.tasks)).printed) h.tree

/-- Runs a command for a request. -/
def perform (h : Host) (command : Command) (request : Request) : Outcome :=
  match h.prepare request with
  | .error e => refused e h.tree
  | .ok (options, settings) =>
    match command with
    | .check => check h options settings
    | .tasks => listTasks h settings

/-- Runs a command line; one that cannot be read changes nothing and prints nothing. -/
def run (h : Host) (arguments : List Text) : Outcome :=
  match Arguments.read arguments with
  | .error .nullInPath => refused .nullInPath h.tree
  | .error _ => ⟨exitStartup, [], h.tree, none⟩
  | .ok (command, request) => perform h command request

end SourceTidy.Cli
