import SourceTidy.Config.Merge
import SourceTidy.Config.Source

/-!
# Loading settings

The settings of a run come from up to three sources, each laid over those before it: the section in the project's
document, the document of settings beside what is looked at, and a document that was asked for.

How deeply values can be nested in a document, how deeply tables can be laid over each other and how values are checked are no
matter of loading settings but of what it rests on (`Means`).
-/

namespace SourceTidy.Config

/-- Whether a path leads to a regular file. -/
def isFile (t : Tree) (work : Location) (p : Path) : Except LoadError Bool := (t.isFile work p).mapError .refused

/-- The directory in which sources are looked for: the one that is looked at, or the one of the file that is. -/
def directoryOf (t : Tree) (work : Location) (target : Path) : Except LoadError Path := do
  return if ← isFile t work target then target.parent else target

/-- The sources for a target, from the lowest to the highest. -/
def sourcesFor (t : Tree) (work : Location) (target : Path) (explicit : Option Path) :
    Except LoadError (List Source) := do
  let directory ← directoryOf t work target
  let found : List Source := [⟨.section, directory.child projectName, none⟩, ⟨.document, directory.child documentName, none⟩]
  match explicit with
  | none => return found
  | some p =>
    if ← isFile t work p then
      return found ++ [⟨if p.name = projectName then .section else .document, p, none⟩]
    else .error (.missing p)

/-- What loading settings rests on. -/
structure Means where
  /-- The room that the reader of documents has for nesting. -/
  stack : Toml.Stack
  /-- How many tables there is room to merge inside each other, the outermost not counted. -/
  mergeRoom : Nat
  /-- How values are checked. -/
  checks : Checks

/-- What there is in a run. -/
def Means.usual : Means := ⟨.usual, 983, .usual⟩

/-- What some sources hold, laid over each other, and the wordings for those that hold anything. -/
structure Gathered where
  table : Fields := []
  sources : List Text := []

/-- What has been gathered with one more source on top. -/
def Gathered.add (m : Means) (t : Tree) (work : Location) (g : Gathered) (s : Source) : Except LoadError Gathered := do
  let fields ← s.load m.stack t work
  if fields.isEmpty then return g
  else if m.mergeRoom + 1 < Fields.overlap g.table fields then .error .mergedTooDeep
  else return ⟨Fields.merge g.table fields, g.sources ++ [s.description]⟩

/-- What some sources hold, from the lowest to the highest. -/
def gather (m : Means) (t : Tree) (work : Location) (sources : List Source) : Except LoadError Gathered :=
  sources.foldlM (Gathered.add m t work) {}

/-- Settings, and the sources that they come from. -/
structure Loaded where
  settings : Settings
  sources : List Text
  deriving DecidableEq, Repr

/-- The settings of some sources, from the lowest to the highest. -/
def loadSources (m : Means) (t : Tree) (work : Location) (sources : List Source) : Except LoadError Loaded := do
  let gathered ← gather m t work sources
  match Settings.ofValue m.checks (.table gathered.table) with
  | .ok settings => .ok ⟨settings, gathered.sources⟩
  | .error (.notIterable e) => .error (.notIterable e)
  | .error (.complaints _ cs) => .error (.invalid gathered.sources cs)

/-- The settings for a target. -/
def load (m : Means) (t : Tree) (work : Location) (target : Path) (explicit : Option Path) : Except LoadError Loaded :=
  sourcesFor t work target explicit >>= loadSources m t work

end SourceTidy.Config
