import SourceTidy.Tree.Replace

/-!
# Replacements of which any step may fail

The system may refuse a step of a replacement for reasons that no tree shows, and it may have written a part of a content by
then.
-/

namespace SourceTidy.Tree

/-- The failure of a step for a reason that is not in the tree, and how much of a content had been written by then. Which
error it is makes no difference. -/
structure Fault where
  error : SystemError
  written : Nat
  deriving DecidableEq, Repr

/-- The steps that fail for reasons that are not in the tree. -/
abbrev Faults := ReplaceStep → Option Fault

/-- The tree that a failing step leaves: a part of a content may have been written. -/
def interrupt (t : Tree) (written : Nat) : ReplaceStep → Tree
  | .fill l content =>
    match t.get? l with
    | some (.file mode _) => t.put l (.file mode (content.take written))
    | _ => t
  | _ => t

/-- The tree after a step, and the error if it failed. -/
def attempt (faults : Faults) (t : Tree) (s : ReplaceStep) : Tree × Option SystemError :=
  match faults s with
  | some f => (t.interrupt f.written s, some f.error)
  | none =>
    match t.perform s with
    | .ok t' => (t', none)
    | .error e => (t, some e)

/-- The tree after as many steps as succeed and the one that fails, and its error. -/
def attemptAll (faults : Faults) (t : Tree) : List ReplaceStep → Tree × Option SystemError
  | [] => (t, none)
  | s :: rest =>
    match t.attempt faults s with
    | (t', none) => attemptAll faults t' rest
    | (t', some e) => (t', some e)

/-- Replaces the content of the file at a location when some steps fail: the temporary file is removed then. -/
def replaceUnder (faults : Faults) (t : Tree) (target : Location) (content : Bytes) : Tree × Option SystemError :=
  let temporary := t.temporaryBeside target
  match t.attemptAll faults (replaceSteps temporary target content) with
  | (t', none) => (t', none)
  | (t', some e) => (t'.erase temporary, some e)

/-- Writes a text to the file that a path leads to when some steps fail. -/
def writeUnder (faults : Faults) (t : Tree) (work : Location) (p : Path) (content : Text) : Tree × Option WriteError :=
  match Utf8.encode content with
  | .error e => (t, some (.encode e))
  | .ok bytes =>
    match t.replaceUnder faults (t.real work p) bytes with
    | (t', none) => (t', none)
    | (t', some e) => (t', some (.system e))

/-- The system refuses nothing but what the tree shows. -/
def noFaults : Faults := fun _ => none

end SourceTidy.Tree
