import SourceTidy.Run.Pass
import SourceTidy.Tree.Replace

/-!
# Processing a file

A file is read, the tasks pass over it, and it is written back if its content has changed and fixes are to be written. A
file that cannot be read or written is reported, and the run goes on; a content that has no bytes stops it.
-/

namespace SourceTidy.Run

/-- A file whose turn it is: its path, and the path that it is shown by. -/
structure Record where
  path : Path
  relative : Text
  deriving DecidableEq, Repr

/-- The record of a file that was found below a root. -/
def Record.ofPath (root p : Path) : Record := ⟨p, p.relativeTo root⟩

/-- How the processing of a file ended. -/
structure Result where
  /-- Nothing is wrong with the file. -/
  ok : Bool
  rewritten : Bool
  deriving DecidableEq, Repr

/-- The content of a file has no bytes, so that the run stops here. -/
structure Unwritable where
  world : World
  reason : Utf8.EncodeError
  deriving DecidableEq, Repr

/-- What is done with every file. -/
structure Job where
  tasks : List Task
  /-- Whether fixes stay unwritten. -/
  readOnly : Bool
  /-- Where relative paths start. -/
  work : Location := []

/-- A finding about a file that could not be read or written. -/
def troubleWith (r : Record) (what : Text) (e : SystemError) : Finding :=
  ⟨.error, r.relative, what ++ Text.ofString ": " ++ Text.ofString e.message, none, true⟩

namespace Job

/-- The pass of the tasks over a file with a content. -/
def pass (j : Job) (r : Record) (w : World) (content : Text) : Pass :=
  Pass.run ⟨r.relative, j.readOnly⟩ r.path.name j.tasks ⟨w, content, false⟩

/-- Writes the content that a pass has left. -/
def writeBack (j : Job) (r : Record) (p : Pass) : Except Unwritable (World × Result) :=
  match p.world.tree.write j.work r.path p.content with
  | (t, none) => .ok ({ p.world with tree := t }, ⟨!p.hasError, true⟩)
  | (t, some (.system e)) =>
    .ok ((World.report { p.world with tree := t } (troubleWith r "Unable to write file" e)), ⟨false, false⟩)
  | (t, some (.encode e)) => .error ⟨{ p.world with tree := t }, e⟩

/-- Processes a file. -/
def process (j : Job) (r : Record) (w : World) : Except Unwritable (World × Result) :=
  match w.tree.read j.work r.path with
  | .error e => .ok (w.report (troubleWith r "Unable to read file" e), ⟨false, false⟩)
  | .ok bytes =>
    let given := Utf8.decode bytes
    let p := j.pass r w given
    if p.content = given || j.readOnly then .ok (p.world, ⟨!p.hasError, false⟩) else j.writeBack r p

end Job
end SourceTidy.Run
