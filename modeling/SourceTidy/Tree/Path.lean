import SourceTidy.Text.CodePoint

/-!
# Paths

A path is where it starts and the names that follow. Single points and empty names are dropped when a path is read, two
points are kept, and exactly two slashes at the start are a start of their own.
-/

namespace SourceTidy

/-- Where a path starts. -/
inductive Anchor where
  /-- At the working directory. -/
  | relative
  | root
  /-- At the root, written with two slashes. -/
  | doubleRoot
  deriving DecidableEq, Repr

/-- A path. -/
structure Path where
  anchor : Anchor
  parts : List Text
  deriving DecidableEq, Repr

namespace Path

/-- The sign between the names of a path. -/
def slash : CodePoint := '/'

/-- The name of the directory above. -/
def up : Text := ".."

/-- What stands for a directory inside of it. -/
def here : Text := "."

/-- The code point that no path can hold. -/
def null : CodePoint := .ofNat 0

/-- The names of a written path that count. -/
def namesOf (t : Text) : List Text := (Text.split slash t).filter fun n => !n.isEmpty && n != here

/-- All steps of a written path; a slash at its end asks for a directory. -/
def stepsOf (t : Text) : List Text :=
  (Text.split slash t).filter (!·.isEmpty) ++ if t.getLast? = some slash then [here] else []

/-- Where a written path starts. -/
def anchorOf (t : Text) : Anchor :=
  match (t.takeWhile (· == slash)).length with
  | 0 => .relative
  | 2 => .doubleRoot
  | _ => .root

/-- The path that a text writes. -/
def ofText (t : Text) : Path := ⟨anchorOf t, namesOf t⟩

/-- The written form of a path; a path without anything is a point. -/
def text (p : Path) : Text :=
  let names := Text.join [slash] p.parts
  match p.anchor with
  | .relative => if names.isEmpty then here else names
  | .root => slash :: names
  | .doubleRoot => slash :: slash :: names

/-- The last name of a path, and nothing if there is none. -/
def name (p : Path) : Text := p.parts.getLast?.getD []

/-- The path without its last name. -/
def parent (p : Path) : Path := { p with parts := p.parts.dropLast }

/-- The path with one more name. -/
def child (p : Path) (name : Text) : Path := { p with parts := p.parts ++ [name] }

/-- A path followed by another, which starts anew when it does not start at the working directory. -/
def append (p q : Path) : Path :=
  match q.anchor with
  | .relative => { p with parts := p.parts ++ q.parts }
  | _ => q

/-- What leads from a path to one below it. -/
def below? (root p : Path) : Option Path :=
  if root.anchor = p.anchor ∧ root.parts.isPrefixOf p.parts then
    some ⟨.relative, p.parts.drop root.parts.length⟩
  else none

/-- A path as it is shown for a root: its last name when it is the root itself, what leads there from the root when it
is below, and otherwise the whole path. -/
def relativeTo (p root : Path) : Text :=
  if p = root then p.name
  else
    match below? root p with
    | some rest => rest.text
    | none => p.text

end Path
end SourceTidy
