import SourceTidy.Run.Plan
import SourceTidy.Tree.Faults

/-!
# Runs in which things go wrong

The system may refuse to read a file, or a step of writing one, for reasons that no tree shows; the console may not take the
line of a finding; and a failure may have no words. A file that is refused is reported as one that the tree does not let be
read or written. What goes wrong when something is reported is a failure of the task that reports it, and stops the run when
the run reports it itself. Without mishaps all of this is a run as it is described by `Plan.run`.
-/

namespace SourceTidy.Run

/-- What goes wrong in a run for reasons that are not in the tree. -/
structure Mishaps where
  /-- Why a file cannot be read. -/
  unread : Record → Option SystemError := fun _ => none
  /-- The steps of writing a file that fail. -/
  faults : Record → Tree.Faults := fun _ => Tree.noFaults
  /-- Why a finding cannot be printed. -/
  unprinted : Finding → Option Task.Fault := fun _ => none
  /-- Why a failure cannot be put into words. -/
  wordless : Task.Fault → Option Task.Fault := fun _ => none

/-- Reports a finding for the run itself. It counts before it is printed, and if that fails the run stops. -/
def World.reportUnder (m : Mishaps) (w : World) (f : Finding) : Except Halt World :=
  match m.unprinted f with
  | none => .ok (w.report f)
  | some fault => .error ⟨w.report f, .raised fault⟩

namespace Pass

/-- The pass after an act of a task, and the failure if it fails. A finding that cannot be printed counts, but it does not
make anything wrong with the file. -/
def actUnder (m : Mishaps) (c : Task.Context) (p : Pass) : Task.Act → Pass × Option Task.Fault
  | .report n =>
    match m.unprinted (findingOf c n) with
    | none => (p.notice c n, none)
    | some fault => ({ p with world := p.world.report (findingOf c n) }, some fault)
  | a =>
    match p.act c a with
    | .ok p' => (p', none)
    | .error f => (p, some (.system (some f.message)))

/-- The pass after as many acts of a task as do not fail, and the failure that stopped them. -/
def actAllUnder (m : Mishaps) (c : Task.Context) (p : Pass) : List Task.Act → Pass × Option Task.Fault
  | [] => (p, none)
  | a :: rest =>
    match p.actUnder m c a with
    | (p', none) => actAllUnder m c p' rest
    | (p', some f) => (p', some f)

/-- The pass when the run itself reports an error of the file. -/
def complainUnder (m : Mishaps) (c : Task.Context) (p : Pass) (message : Text) : Except Halt Pass :=
  (p.world.reportUnder m (findingOf c ⟨.error, message, none⟩)).map fun _ => p.notice c ⟨.error, message, none⟩

/-- The pass when a task has ended. -/
def settleUnder (m : Mishaps) (c : Task.Context) (name : Text) (p : Pass) : Task.Outcome → Except Halt Pass
  | .text t => .ok (settle c name p (.text t))
  | .nonText k => p.complainUnder m c (nonTextMessage name k)
  | .failed f =>
    match m.wordless f with
    | none => p.complainUnder m c (failedMessage name f)
    | some fault => .error ⟨p.world, .raised fault⟩

/-- The pass after a task; an act that fails is a failure of the task. -/
def stepUnder (m : Mishaps) (c : Task.Context) (p : Pass) (t : Task) : Except Halt Pass :=
  let r := t.handler c p.content
  match p.actAllUnder m c r.acts with
  | (p', none) => settleUnder m c t.name p' r.outcome
  | (p', some f) => settleUnder m c t.name p' (.failed f)

/-- The pass after the tasks that look at files of a name. -/
def runUnder (m : Mishaps) (c : Task.Context) (name : Text) (tasks : List Task) (p : Pass) : Except Halt Pass :=
  (tasks.filter (·.looksAt name)).foldlM (stepUnder m c) p

end Pass

namespace Job

/-- The content of a file. -/
def readUnder (j : Job) (m : Mishaps) (r : Record) (t : Tree) : Except SystemError Bytes :=
  match m.unread r with
  | none => t.read j.work r.path
  | some e => .error e

/-- The pass of the tasks over a file with a content. -/
def passUnder (j : Job) (m : Mishaps) (r : Record) (w : World) (content : Text) : Except Halt Pass :=
  Pass.runUnder m ⟨r.relative, j.readOnly⟩ r.path.name j.tasks ⟨w, content, false⟩

/-- Writes the content that a pass has left. -/
def writeBackUnder (j : Job) (m : Mishaps) (r : Record) (p : Pass) : Except Halt (World × Result) :=
  match p.world.tree.writeUnder (m.faults r) j.work r.path p.content with
  | (t, none) => .ok ({ p.world with tree := t }, ⟨!p.hasError, true⟩)
  | (t, some (.system e)) =>
    (World.reportUnder m { p.world with tree := t } (troubleWith r "Unable to write file" e)).map (·, ⟨false, false⟩)
  | (t, some (.encode e)) => .error ⟨{ p.world with tree := t }, .unwritable e⟩

/-- Processes a file. -/
def processUnder (j : Job) (m : Mishaps) (r : Record) (w : World) : Except Halt (World × Result) :=
  match j.readUnder m r w.tree with
  | .error e => (w.reportUnder m (troubleWith r "Unable to read file" e)).map (·, ⟨false, false⟩)
  | .ok bytes => do
    let given := Utf8.decode bytes
    let p ← j.passUnder m r w given
    if p.content = given || j.readOnly then .ok (p.world, ⟨!p.hasError, false⟩) else j.writeBackUnder m r p

end Job

namespace Plan

/-- What is done with a file when the walk comes to it. -/
def visitUnder (p : Plan) (m : Mishaps) : (root path : Path) → State → Except Stopped State :=
  p.visitBy (p.job.processUnder m)

/-- The run over everything below a root. -/
def runUnder (p : Plan) (m : Mishaps) (root : Path) (w : World) : Except (WalkError State Stopped) State :=
  p.walk.run (·.world.tree) (p.visitUnder m root) root { world := w }

end Plan
end SourceTidy.Run
