import SourceTidy.Glob.Mask
import SourceTidy.Report.Finding
import SourceTidy.Tree.Build

/-!
# The pass over a file

The tasks that look at a file run over it one after the other. Each is given the content that those before it have left,
and what it answers becomes the content, but only as long as nothing is wrong with the file: from the first error on, and
from the first fix on when fixes stay unwritten, the content stays as it is, while the tasks still run and report.
-/

namespace SourceTidy

/-- Whether a task looks at files of a name. -/
def Task.looksAt (t : Task) (name : Text) : Bool :=
  match t.mask with
  | none => true
  | some mask => mask.isEmpty || Mask.accepts mask name

namespace Run

/-- What a task took down: where it stood and what it was given. -/
structure Sighting where
  path : Text
  readOnly : Bool
  content : Text
  deriving DecidableEq, Repr

/-- What a run works on and leaves behind. -/
structure World where
  tree : Tree
  reporter : Reporter := {}
  seen : List Sighting := []
  deriving DecidableEq, Repr

/-- A world with one more finding reported. -/
def World.report (w : World) (f : Finding) : World := { w with reporter := w.reporter.report f }

/-- A pass over a file: the world, the content as it is by now, and whether something is wrong with the file. -/
structure Pass where
  world : World
  content : Text
  hasError : Bool := false
  deriving DecidableEq, Repr

/-- Whether a finding of a level means that something is wrong with the file. -/
def isFatal (readOnly : Bool) : Level → Bool
  | .fix => readOnly
  | .warning => false
  | .error => true

/-- The finding for a notice. Only a fix can be one that is not applied. -/
def findingOf (c : Task.Context) (n : Task.Notice) : Finding :=
  ⟨n.level, c.path, n.message, n.line, n.level != .fix || !c.readOnly⟩

namespace Pass

/-- The pass after a notice. -/
def notice (c : Task.Context) (p : Pass) (n : Task.Notice) : Pass :=
  { p with world := p.world.report (findingOf c n), hasError := p.hasError || isFatal c.readOnly n.level }

/-- The pass after an act of a task. -/
def act (c : Task.Context) (p : Pass) : Task.Act → Except SystemFailure Pass
  | .report n => .ok (p.notice c n)
  | .remove path =>
    (p.world.tree.remove [] (Path.ofText path)).map fun t => { p with world := { p.world with tree := t } }
  | .record content =>
    .ok { p with world := { p.world with seen := p.world.seen ++ [⟨c.path, c.readOnly, content⟩] } }

/-- The pass after as many acts of a task as are not refused, and the refusal that stopped them. -/
def actAll (c : Task.Context) (p : Pass) : List Task.Act → Pass × Option SystemFailure
  | [] => (p, none)
  | a :: rest =>
    match p.act c a with
    | .ok p' => actAll c p' rest
    | .error f => (p, some f)

/-- The wording for a task that failed. -/
def failedMessage (name : Text) (f : Task.Fault) : Text := "Task " ++ name ++ " failed: " ++ f.message

/-- The wording for a task that answered with something that is no text. -/
def nonTextMessage (name : Text) (k : Task.NonText) : Text :=
  "Task " ++ name ++ " returned " ++ Text.ofString k.typeName ++ " instead of text"

/-- The pass when a task has ended. -/
def settle (c : Task.Context) (name : Text) (p : Pass) : Task.Outcome → Pass
  | .text t => if p.hasError then p else { p with content := t }
  | .nonText k => p.notice c ⟨.error, nonTextMessage name k, none⟩
  | .failed f => p.notice c ⟨.error, failedMessage name f, none⟩

/-- The pass after a task; a refused act is a failure of the task. -/
def step (c : Task.Context) (p : Pass) (t : Task) : Pass :=
  let r := t.handler c p.content
  match p.actAll c r.acts with
  | (p', none) => settle c t.name p' r.outcome
  | (p', some f) => settle c t.name p' (.failed (.system (some f.message)))

/-- The pass after the tasks that look at files of a name. -/
def run (c : Task.Context) (name : Text) (tasks : List Task) (p : Pass) : Pass :=
  (tasks.filter (·.looksAt name)).foldl (step c) p

end Pass
end Run
end SourceTidy
