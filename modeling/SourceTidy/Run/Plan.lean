import SourceTidy.Run.File
import SourceTidy.Tree.Walk

/-!
# Runs

A run processes every file that a walk comes to, while it comes to it, and adds up how it went. What is to happen around
every file is told by the hooks. In the runs of this module the console takes the line of every finding, every failure has
words, and the system refuses nothing but what the tree shows; those in which anything of this goes wrong are in
`SourceTidy.Run.Mishaps`.
-/

namespace SourceTidy.Run

/-- How a run went. -/
structure Verdict where
  /-- Nothing is wrong with any file. -/
  success : Bool := true
  files : Nat := 0
  failed : List Text := []
  rewritten : List Text := []
  deriving DecidableEq, Repr

/-- The verdict when one more file has been processed. -/
def Verdict.add (v : Verdict) (r : Record) (result : Result) : Verdict where
  success := v.success && result.ok
  files := v.files + 1
  failed := if result.ok then v.failed else v.failed ++ [r.relative]
  rewritten := if result.rewritten then v.rewritten ++ [r.relative] else v.rewritten

/-- What happens to a file in its turn, each with the world in which it happens. -/
inductive Event where
  /-- The file has come up. -/
  | before (path : Text) (world : World)
  /-- The file is processed. -/
  | process (path : Text) (world : World)
  /-- The file has been processed, and nothing is wrong with it or something is. -/
  | after (path : Text) (ok : Bool) (world : World)
  deriving DecidableEq, Repr

/-- What happens around every file: what becomes of the tree just before the file is processed, and just after. A hook is
told the file, and afterwards whether it is fine. -/
structure Hooks where
  before : Record → Tree → Except SystemFailure Tree := fun _ t => .ok t
  after : Record → Bool → Tree → Except SystemFailure Tree := fun _ _ t => .ok t

/-- A run in the middle. -/
structure State where
  world : World
  verdict : Verdict := {}
  events : List Event := []
  deriving DecidableEq, Repr

/-- Why a run is stopped. -/
inductive StopReason where
  /-- The content of a file has no bytes. -/
  | unwritable (e : Utf8.EncodeError)
  /-- A hook was refused what it does to the tree. -/
  | hook (failure : SystemFailure)
  /-- A finding could not be printed, or a failure not be put into words. -/
  | raised (fault : Task.Fault)
  deriving DecidableEq, Repr

/-- The wording of the reason. -/
def StopReason.message : StopReason → Text
  | unwritable e => e.message
  | hook f => f.message
  | raised f => f.message

/-- The processing of a file that stops the run. -/
structure Halt where
  world : World
  reason : StopReason
  deriving DecidableEq, Repr

/-- A content without bytes stops the run. -/
def Unwritable.halt (e : Unwritable) : Halt := ⟨e.world, .unwritable e.reason⟩

/-- A run that was stopped. -/
structure Stopped where
  state : State
  reason : StopReason
  deriving DecidableEq, Repr

/-- All that a run is told. -/
structure Plan where
  walk : Walk
  tasks : List Task
  readOnly : Bool
  hooks : Hooks := {}

namespace Plan

/-- What is done with every file. -/
def job (p : Plan) : Job := ⟨p.tasks, p.readOnly, p.walk.work⟩

/-- The state when a file has come up. -/
def announce (p : Plan) (r : Record) (s : State) : Except Stopped State :=
  let s := { s with events := s.events ++ [.before r.relative s.world] }
  match p.hooks.before r s.world.tree with
  | .ok tree => .ok { s with world := { s.world with tree } }
  | .error f => .error ⟨s, .hook f⟩

/-- The state when a file has been processed. -/
def finish (p : Plan) (r : Record) (result : Result) (world : World) (s : State) : Except Stopped State :=
  let s : State := ⟨world, s.verdict.add r result, s.events ++ [.after r.relative result.ok world]⟩
  match p.hooks.after r result.ok world.tree with
  | .ok tree => .ok { s with world := { world with tree } }
  | .error f => .error ⟨s, .hook f⟩

/-- What is done with a file when the walk comes to it, by a way to process files. -/
def visitBy (p : Plan) (process : Record → World → Except Halt (World × Result)) (root path : Path) (s : State) :
    Except Stopped State := do
  let r := Record.ofPath root path
  let s ← p.announce r s
  let s := { s with events := s.events ++ [.process r.relative s.world] }
  match process r s.world with
  | .ok (world, result) => p.finish r result world s
  | .error h => .error ⟨{ s with world := h.world }, h.reason⟩

/-- What is done with a file when the walk comes to it. -/
def visit (p : Plan) : (root path : Path) → State → Except Stopped State :=
  p.visitBy fun r w => (p.job.process r w).mapError Unwritable.halt

/-- The run over everything below a root. -/
def run (p : Plan) (root : Path) (w : World) : Except (WalkError State Stopped) State :=
  p.walk.run (·.world.tree) (p.visit root) root { world := w }

end Plan
end SourceTidy.Run
