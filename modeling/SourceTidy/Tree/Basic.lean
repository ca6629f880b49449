import SourceTidy.Text.Quoted
import SourceTidy.Text.Utf8
import SourceTidy.Tree.Path

/-!
# File trees

A tree says what is at each location: a regular file with its mode, a directory, or a symbolic link. Locations are
lists of names from the root, which is always a directory. Looking at a path tells that there is nothing apart from a
path that the system does not take, because it, or a name on the way, is too long. Permissions, devices, sockets and pipes
are not modelled.
-/

namespace SourceTidy

/-- A place in a tree: the names that lead there from the root. -/
abbrev Location := List Text

/-- What can be at a location. -/
inductive Entry where
  | file (mode : Nat) (content : Bytes)
  | directory
  | link (target : Text)
  deriving DecidableEq, Repr

/-- Whether an entry is a regular file. -/
def Entry.isFile : Entry → Bool
  | file _ _ => true
  | _ => false

/-- A file tree. -/
structure Tree where
  entries : List (Location × Entry)
  deriving DecidableEq, Repr

/-- Why the system refuses an operation on a tree. -/
inductive SystemError where
  | notFound
  | alreadyThere
  | notDirectory
  | isDirectory
  | nameTooLong
  | tooManyLinks
  /-- An error for a reason that is not in the tree. -/
  | other (number : Nat) (message : String)
  deriving DecidableEq, Repr

namespace SystemError

/-- The number of an error. -/
def number : SystemError → Nat
  | notFound => 2
  | alreadyThere => 17
  | notDirectory => 20
  | isDirectory => 21
  | nameTooLong => 36
  | tooManyLinks => 40
  | other number _ => number

/-- The wording of an error. -/
def message : SystemError → String
  | notFound => "No such file or directory"
  | alreadyThere => "File exists"
  | notDirectory => "Not a directory"
  | isDirectory => "Is a directory"
  | nameTooLong => "File name too long"
  | tooManyLinks => "Too many levels of symbolic links"
  | other _ message => message

/-- Whether an error says no more than that a path leads to nothing. -/
def meansAbsence : SystemError → Bool
  | notFound | notDirectory | tooManyLinks => true
  | alreadyThere | isDirectory | nameTooLong | other _ _ => false

end SystemError

/-- The refusal of an operation on a path. -/
structure SystemFailure where
  path : Path
  reason : SystemError
  deriving DecidableEq, Repr

/-- The wording of a refusal. -/
def SystemFailure.message (f : SystemFailure) : Text :=
  "[Errno " ++ Text.ofNat f.reason.number ++ "] " ++ Text.ofString f.reason.message ++ ": " ++ f.path.text.quoted

namespace Tree

/-- The entry at a location, if there is one. -/
def get? (t : Tree) (l : Location) : Option Entry := if l = [] then some .directory else t.entries.lookup l

/-- The names in a directory, in no particular order. -/
def names (t : Tree) (l : Location) : List Text :=
  t.entries.filterMap fun (m, _) => if m.dropLast = l then m.getLast? else none

/-- The entries with one put at a location. -/
def putEntry (l : Location) (e : Entry) : List (Location × Entry) → List (Location × Entry)
  | [] => [(l, e)]
  | (m, f) :: rest => if m = l then (l, e) :: rest else (m, f) :: putEntry l e rest

/-- A tree with an entry put at a location. -/
def put (t : Tree) (l : Location) (e : Entry) : Tree := ⟨putEntry l e t.entries⟩

/-- A tree without what is at a location and below it. -/
def erase (t : Tree) (l : Location) : Tree := ⟨t.entries.filter fun (m, _) => !l.isPrefixOf m⟩

/-! ## Following links -/

/-- How many links the system follows on one way. -/
def maxLinks : Nat := 40

/-- Where the target of a link starts, when the link is in a directory. -/
def startOf (target : Text) (directory : Location) : Location :=
  if Path.anchorOf target = .relative then directory else []

/-- The most bytes that a name can have. -/
def longestName : Nat := 255

/-- The most bytes that a written path can have. -/
def longestPath : Nat := 4095

/-- The location that names lead to from a directory, links followed; the last one only on demand. A single point stands
for the directory that has been reached. -/
def locate (t : Tree) (followLast : Bool) (links : Nat) (directory : Location) :
    List Text → Except SystemError Location
  | [] => .ok directory
  | name :: rest =>
    if name = Path.up then locate t followLast links directory.dropLast rest
    else if name = Path.here then locate t followLast links directory rest
    else if longestName < Utf8.size name then .error .nameTooLong
    else
      let l := directory ++ [name]
      match t.get? l with
      | none => .error .notFound
      | some .directory => locate t followLast links l rest
      | some (.file _ _) => if rest.isEmpty then .ok l else .error .notDirectory
      | some (.link target) =>
        if rest.isEmpty && !followLast then .ok l
        else
          match links with
          | 0 => .error .tooManyLinks
          | n + 1 => locate t followLast n (startOf target directory) (Path.stepsOf target ++ rest)
termination_by names => (links, names.length)

/-- Where a path starts for a working directory. -/
def start (work : Location) (p : Path) : Location := if p.anchor = .relative then work else []

/-- Whether a path can be handed to the system. -/
def admits (p : Path) : Except SystemError Unit :=
  if p.text.contains Path.null then .error .notFound
  else if longestPath < Utf8.size p.text then .error .nameTooLong
  else .ok ()

/-- The location of a path. -/
def locatePath (t : Tree) (work : Location) (p : Path) : Except SystemError Location := do
  admits p
  t.locate true maxLinks (start work p) p.parts

/-- The location of what a path names, a link at its end not followed. -/
def locateEntry (t : Tree) (work : Location) (p : Path) : Except SystemError Location := do
  admits p
  t.locate false maxLinks (start work p) p.parts

/-- The entry at a path, links followed. -/
def entryAt (t : Tree) (work : Location) (p : Path) : Except SystemError Entry := do
  let l ← t.locatePath work p
  match t.get? l with
  | some e => .ok e
  | none => .error .notFound

/-- The entry at a path, if there is one. -/
def entryAt? (t : Tree) (work : Location) (p : Path) : Except SystemFailure (Option Entry) :=
  match t.entryAt work p with
  | .ok e => .ok (some e)
  | .error e => if e.meansAbsence then .ok none else .error ⟨p, e⟩

/-- Whether a path leads to anything. -/
def pathExists (t : Tree) (work : Location) (p : Path) : Except SystemFailure Bool :=
  (·.isSome) <$> t.entryAt? work p

/-- Whether a path leads to a regular file. -/
def isFile (t : Tree) (work : Location) (p : Path) : Except SystemFailure Bool :=
  (·.any Entry.isFile) <$> t.entryAt? work p

/-- Whether a path leads to a directory; one that the system does not take leads to none. -/
def isDirectory (t : Tree) (work : Location) (p : Path) : Bool :=
  match t.entryAt work p with
  | .ok .directory => true
  | _ => false

/-- Whether a path leads to a link, the last name not followed. -/
def isLink (t : Tree) (work : Location) (p : Path) : Bool :=
  match t.locateEntry work p with
  | .ok l =>
    match t.get? l with
    | some (.link _) => true
    | _ => false
  | .error _ => false

/-- The content of the file that a path leads to. -/
def read (t : Tree) (work : Location) (p : Path) : Except SystemError Bytes := do
  match ← t.entryAt work p with
  | .file _ content => .ok content
  | .directory => .error .isDirectory
  | .link _ => .error .tooManyLinks

/-! ## Real locations -/

/-- Names taken one after the other without a look at the tree. -/
def descendBy (l : Location) (names : List Text) : Location :=
  names.foldl (fun l name => if name = Path.up then l.dropLast else l ++ [name]) l

/-- The location that names lead to from a directory when every link is replaced by what its target leads to, and
whether that came to an end: a link inside of its own replacement is left as it is, with the names after it. What does
not exist counts as no link. The links that are being replaced are given; there can be no more of them than the first
argument says. -/
def realFrom (t : Tree) (depth : Nat) (replaced : List Location) (directory : Location) :
    List Text → Location × Bool
  | [] => (directory, true)
  | name :: rest =>
    if name = Path.up then realFrom t depth replaced directory.dropLast rest
    else
      let here := directory ++ [name]
      match t.get? here with
      | some (.link target) =>
        match depth with
        | 0 => (descendBy here rest, false)
        | n + 1 =>
          if replaced.contains here then (descendBy here rest, false)
          else
            match realFrom t n (here :: replaced) (startOf target directory) (Path.namesOf target) with
            | (l, true) => realFrom t (n + 1) replaced l rest
            | (l, false) => (descendBy l rest, false)
      | _ => realFrom t depth replaced here rest
termination_by names => (depth, names.length)

/-- The real location of a path: absolute, and without links unless they go round in circles. -/
def real (t : Tree) (work : Location) (p : Path) : Location :=
  (t.realFrom (t.entries.length + 1) [] (start work p) p.parts).1

/-- The path of a location. -/
def pathOf (l : Location) : Path := ⟨.root, l⟩

end Tree
end SourceTidy
