import SourceTidy.Glob.MaskSet
import SourceTidy.Tree.Basic

/-!
# Walks

A walk goes through a directory: first its files, then its directories, both in code point order, and each directory in
full before the next. Names that are not accepted, or ignored, are passed over, and so are links to directories unless
they are to be followed.

Something is done at every file before the walk goes on, and it may change the tree. So a directory is read when the
walk comes to it, and a file is looked at once more when its turn has come. What the system does not take ends the walk
there, but a directory that it does not take is passed over. `scan` is the walk that only collects.
-/

namespace SourceTidy

/-- What a walk looks for, and where relative paths start. -/
structure Walk where
  accept : MaskSet
  ignore : MaskSet
  followsLinks : Bool := false
  work : Location := []

/-- How a walk fails. -/
inductive WalkError (σ ε : Type) where
  /-- There is nothing at the root. -/
  | missing (root : Path)
  /-- The system does not take a path; the state when the walk came to it is given. -/
  | refused (state : σ) (failure : SystemFailure)
  /-- What was done at a file failed. -/
  | stopped (e : ε)
  deriving DecidableEq, Repr

/-- The wording of the failure of a walk without a root. -/
def missingMessage (root : Path) : Text := "Path '" ++ root.text ++ "' does not exist"

namespace Walk

/-- Whether a file may have a name. -/
def admits (w : Walk) (name : Text) : Bool := w.accept.accepts name && !w.ignore.accepts name

/-- The names in the directory that a path leads to. -/
def namesIn (w : Walk) (t : Tree) (directory : Path) : List Text :=
  match t.locatePath w.work directory with
  | .ok l => t.names l
  | .error _ => []

/-- Whether a name in a directory is that of a directory, or of a link to one. The entry itself tells that it is a
directory, so that this is known even if its path is too long for the system. -/
def holdsDirectory (w : Walk) (t : Tree) (directory : Path) (name : Text) : Bool :=
  match t.locatePath w.work directory with
  | .ok l => t.get? (l ++ [name]) == some .directory || t.isDirectory w.work (directory.child name)
  | .error _ => false

/-- The names of the files of a directory that may be of interest, in order. -/
def fileNames (w : Walk) (t : Tree) (directory : Path) : List Text :=
  Text.sort ((w.namesIn t directory).filter fun n => !w.holdsDirectory t directory n && w.admits n)

/-- The names of the directories in a directory that are not ignored, in order. -/
def directoryNames (w : Walk) (t : Tree) (directory : Path) : List Text :=
  Text.sort ((w.namesIn t directory).filter fun n => w.holdsDirectory t directory n && !w.ignore.accepts n)

/-- Whether there is a file at a path in a state. -/
def fileAt (w : Walk) (view : σ → Tree) (p : Path) (s : σ) : Except (WalkError σ ε) Bool :=
  ((view s).isFile w.work p).mapError (.refused s)

/-- Does something at a path. -/
def handle (visit : Path → σ → Except ε σ) (p : Path) (s : σ) : Except (WalkError σ ε) σ :=
  (visit p s).mapError .stopped

/-- Does something at a path if it leads to a file. -/
def visitFile (w : Walk) (view : σ → Tree) (visit : Path → σ → Except ε σ) (p : Path) (s : σ) :
    Except (WalkError σ ε) σ := do
  if ← w.fileAt view p s then handle visit p s else .ok s

/-- Whether the directory at a path is gone through. -/
def enters (w : Walk) (t : Tree) (p : Path) : Bool := w.followsLinks || !t.isLink w.work p

/-- Goes through a directory, at most a number of levels deep. -/
def within (w : Walk) (view : σ → Tree) (visit : Path → σ → Except ε σ) :
    Nat → Path → σ → Except (WalkError σ ε) σ
  | 0, _, s => .ok s
  | depth + 1, directory, s => do
    let directories := w.directoryNames (view s) directory
    let s ← (w.fileNames (view s) directory).foldlM (fun s n => w.visitFile view visit (directory.child n) s) s
    directories.foldlM (fun s n =>
      if w.enters (view s) (directory.child n) then within w view visit depth (directory.child n) s else .ok s) s

/-- How deep a walk can go: on the way to a file there are no more links than the system follows, and between two of
them no more directories than the tree has. -/
def maxDepth (t : Tree) : Nat := (Tree.maxLinks + 1) * (t.entries.length + 2)

/-- A walk from a root. A file is its own walk, whatever its name. -/
def run (w : Walk) (view : σ → Tree) (visit : Path → σ → Except ε σ) (root : Path) (s : σ) :
    Except (WalkError σ ε) σ := do
  if ← w.fileAt view root s then handle visit root s
  else if (view s).isDirectory w.work root then w.within view visit (maxDepth (view s)) root s
  else .error (.missing root)

/-- The files that a walk comes to, and the failure that ended it. -/
structure Found where
  files : List Path
  failure : Option SystemFailure := none
  deriving DecidableEq, Repr

/-- The files of a tree that a walk comes to, in order, if there is anything at its root. -/
def scan (w : Walk) (t : Tree) (root : Path) : Option Found :=
  match w.run (ε := Empty) (fun _ => t) (fun p found => .ok (p :: found)) root [] with
  | .ok found => some { files := found.reverse }
  | .error (.refused found failure) => some ⟨found.reverse, some failure⟩
  | .error (.missing _) => none

end Walk
end SourceTidy
