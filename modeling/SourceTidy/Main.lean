import SourceTidy.Cli.Run

/-!
# The program

The outer layer: what a command may look at is read from the disk into a tree, the command is run on the tree, and the
files whose content it has changed are written to the disk.
-/

namespace SourceTidy.Program

/-- The location of an absolute path of the disk. -/
def locationOf (path : String) : Location := (Path.ofText (Text.ofString path)).parts

/-- The written form of a location. -/
def written (l : Location) : String := Text.toString (Tree.pathOf l).text

/-- A tree with the directories above a location. -/
def withParents (l : Location) (t : Tree) : Tree :=
  (List.range l.length).foldl (fun t n => if n = 0 then t else t.put (l.take n) .directory) t

/-- The absolute path without links that a path of the disk leads to, if there is anything. -/
def real? (path : String) : IO (Option String) :=
  (some <$> toString <$> IO.FS.realPath path).catchExceptions fun _ => pure none

/-- What has been read from the disk, and the directories that have been read. -/
structure Reading where
  tree : Tree := ⟨[]⟩
  visited : List String := []

/-- Reads what is on the disk at a path, and what links below it lead to. -/
partial def load (s : Reading) (path : String) : IO Reading := do
  let real ← IO.FS.realPath path
  let l := locationOf (toString real)
  match (← real.metadata).type with
  | .dir =>
    if s.visited.contains (toString real) then return s
    let above := withParents l s.tree
    let mut s : Reading := ⟨if l = [] then above else above.put l .directory, toString real :: s.visited⟩
    for entry in ← real.readDir do
      let child := toString entry.path
      if (← entry.path.symlinkMetadata).type == .symlink then
        let target ← real? child
        s := { s with tree := s.tree.put (locationOf child) (.link (Text.ofString (target.getD child))) }
        if let some path := target then s ← load s path
      else s ← load s child
    return s
  | .file =>
    return { s with tree := (withParents l s.tree).put l (.file 0o644 (← IO.FS.readBinFile real).toList) }
  | _ => return s

/-- The absolute path that a written path means, without links if there is anything. -/
def absolute (h : Cli.Host) (t : Text) : IO String := do
  match h.expandHome (.ofText t) with
  | .error e => throw (IO.userError (Text.toString e.message))
  | .ok p =>
    let path := written (Tree.descendBy (Tree.start h.work p) p.parts)
    return (← real? path).getD path

/-- Reads what is on the disk at a path, if there is anything. -/
def loadIfThere (s : Reading) (path : String) : IO Reading := do
  if (← real? path).isSome then load s path else return s

/-- Writes the files of a tree that another has with a different content. Files are written in place, which keeps their
modes. -/
def save (before after : Tree) : IO Unit := do
  for (l, entry) in after.entries do
    match entry, before.get? l with
    | .file _ new, some (.file _ old) => if new ≠ old then IO.FS.writeBinFile (written l) ⟨new.toArray⟩
    | _, _ => pure ()

/-- Runs a command for a request on the disk. -/
def perform (command : Cli.Command) (request : Cli.Request) : IO UInt32 := do
  let work := toString (← IO.currentDir)
  let home ← IO.getEnv "HOME"
  let host : Cli.Host := {
    tree := ⟨[]⟩
    work := locationOf work
    home := fun user => if user.isEmpty then home.map Text.ofString else none }
  let target ← absolute host (request.path.getD (Text.ofString work))
  let config ← request.configFile.mapM (absolute host)
  let mut s ← loadIfThere {} target
  for name in [Config.projectName, Config.documentName] do
    s ← loadIfThere s (written ((locationOf target).dropLast ++ [name]))
  if let some path := config then s ← loadIfThere s path
  let outcome := Cli.perform { host with tree := s.tree } command
    { request with path := some (Text.ofString target), configFile := config.map Text.ofString }
  IO.print (Text.toString outcome.stdout)
  save s.tree outcome.tree
  if let some e := outcome.failure then IO.eprintln (Text.toString e.message)
  return UInt32.ofNat outcome.exitCode

end SourceTidy.Program

/-- Runs the command line of the program. -/
def main (arguments : List String) : IO UInt32 := do
  match SourceTidy.Cli.Arguments.read (arguments.map SourceTidy.Text.ofString) with
  | .ok (command, request) => SourceTidy.Program.perform command request
  | .error _ =>
    IO.eprintln "Usage: codechecker check|tasks [OPTIONS]"
    return UInt32.ofNat SourceTidy.Cli.exitStartup
