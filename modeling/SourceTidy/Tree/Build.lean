import SourceTidy.Tree.Basic

/-!
# Building and listing trees

Trees are built from entries with written paths, and listed in the order of their written paths.
-/

namespace SourceTidy.Tree

/-- The directory that names lead to from a directory; directories that are missing on the way are made. -/
def ensureDirectory (t : Tree) (directory : Location) : List Text → Tree × Location
  | [] => (t, directory)
  | name :: rest =>
    match t.locate true maxLinks directory [name] with
    | .ok l => ensureDirectory t l rest
    | .error _ => ensureDirectory (t.put (directory ++ [name]) .directory) (directory ++ [name]) rest

/-- A tree with a file at a path: an existing one is overwritten, and a link leads to the file that is meant. -/
def addFile (t : Tree) (work : Location) (p : Path) (mode : Nat) (content : Bytes) : Tree :=
  let (t, directory) := t.ensureDirectory (start work p) p.parent.parts
  t.put (t.real directory ⟨.relative, [p.name]⟩) (.file mode content)

/-- A tree with a directory at a path. -/
def addDirectory (t : Tree) (work : Location) (p : Path) : Tree :=
  (t.ensureDirectory (start work p) p.parts).1

/-- A tree with a link at a path. -/
def addLink (t : Tree) (work : Location) (p : Path) (target : Text) : Tree :=
  let (t, directory) := t.ensureDirectory (start work p) p.parent.parts
  t.put (directory ++ [p.name]) (.link target)

/-- A tree without what is at a path, and what is below it; a link is removed itself. -/
def remove (t : Tree) (work : Location) (p : Path) : Except SystemFailure Tree :=
  match t.locateEntry work p with
  | .ok l => .ok (t.erase l)
  | .error e => .error ⟨p, e⟩

/-- The entries below a location with their written paths from there, in the order of these paths. -/
def listing (t : Tree) (root : Location) : List (Text × Entry) :=
  let inside := t.entries.filterMap fun (l, e) =>
    if root.isPrefixOf l && l != root then some (Text.join [Path.slash] (l.drop root.length), e) else none
  inside.mergeSort fun a b => Text.le a.1 b.1

end SourceTidy.Tree
