import SourceTidy.Tree.Basic

/-!
# Replacing the content of a file

A file is never written in place. The new content goes to a temporary file beside it, which takes over the mode of the
file and is then renamed over it. If a step fails, the temporary file is removed.
-/

namespace SourceTidy

/-- A step of a replacement. -/
inductive ReplaceStep where
  /-- Makes an empty file that nobody else may read. -/
  | create (l : Location)
  | fill (l : Location) (content : Bytes)
  | copyMode (source target : Location)
  | rename (source target : Location)
  deriving DecidableEq, Repr

namespace Tree

/-- The mode of a temporary file before it takes over another. -/
def privateMode : Nat := 0o600

/-- The tree after a step, if the system lets it happen. -/
def perform (t : Tree) : ReplaceStep → Except SystemError Tree
  | .create l => do
    admits (pathOf l)
    match t.get? l.dropLast, t.get? l with
    | some .directory, none =>
      if longestName < Utf8.size (l.getLast?.getD []) then .error .nameTooLong
      else .ok (t.put l (.file privateMode []))
    | some .directory, some _ => .error .alreadyThere
    | some _, _ => .error .notDirectory
    | none, _ => .error .notFound
  | .fill l content =>
    match t.get? l with
    | some (.file mode _) => .ok (t.put l (.file mode content))
    | some _ => .error .isDirectory
    | none => .error .notFound
  | .copyMode source target =>
    match t.get? source, t.get? target with
    | some (.file mode _), some (.file _ content) => .ok (t.put target (.file mode content))
    | none, _ => .error .notFound
    | _, none => .error .notFound
    | _, _ => .ok t
  | .rename source target =>
    match t.get? source, t.get? target with
    | some (.file _ _), some .directory => .error .isDirectory
    | some e, _ => .ok ((t.put target e).erase source)
    | none, _ => .error .notFound

/-- The tree after as many steps as the system lets happen, and the error that stopped them. -/
def performAll (t : Tree) : List ReplaceStep → Tree × Option SystemError
  | [] => (t, none)
  | s :: rest =>
    match t.perform s with
    | .ok t' => performAll t' rest
    | .error e => (t, some e)

/-- The number of code points in a name that tell temporary files of one file apart. -/
def tagLength : Nat := 8

/-- The temporary location of a number beside a location. -/
def temporaryNumber (l : Location) (n : Nat) : Location :=
  let tag := Text.ofNat n
  let filling := List.replicate (tagLength - tag.length) ('_' : CodePoint)
  l.dropLast ++ ["." ++ l.getLast?.getD [] ++ "." ++ filling ++ tag ++ ".tmp"]

/-- The first temporary location beside a location where there is nothing. One of as many numbers as the tree has
entries, and one more, is free. -/
def temporaryBeside (t : Tree) (l : Location) : Location :=
  let free (n : Nat) : Bool := (t.get? (temporaryNumber l n)).isNone
  temporaryNumber l (((List.range (t.entries.length + 1)).find? free).getD 0)

/-- The steps of a replacement. -/
def replaceSteps (temporary target : Location) (content : Bytes) : List ReplaceStep :=
  [.create temporary, .fill temporary content, .copyMode target temporary, .rename temporary target]

/-- Replaces the content of the file at a location: the tree afterwards, and the error if a step failed. -/
def replace (t : Tree) (target : Location) (content : Bytes) : Tree × Option SystemError :=
  let temporary := t.temporaryBeside target
  match t.performAll (replaceSteps temporary target content) with
  | (t', none) => (t', none)
  | (t', some e) => (t'.erase temporary, some e)

end Tree

/-- Why a text could not be written to a file. -/
inductive WriteError where
  /-- The text has no bytes. -/
  | encode (e : Utf8.EncodeError)
  | system (e : SystemError)
  deriving DecidableEq, Repr

/-- Writes a text to the file that a path leads to: the tree afterwards, and the error if it could not be written. -/
def Tree.write (t : Tree) (work : Location) (p : Path) (content : Text) : Tree × Option WriteError :=
  match Utf8.encode content with
  | .error e => (t, some (.encode e))
  | .ok bytes =>
    match t.replace (t.real work p) bytes with
    | (t', none) => (t', none)
    | (t', some e) => (t', some (.system e))

end SourceTidy
