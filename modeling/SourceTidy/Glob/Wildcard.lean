import SourceTidy.Text.CodePoint

/-!
# Wildcards

A wildcard is a list of atoms, one for each code point of a name, and stars between them. `Wildcard.ofText` reads one
from its written form and `Wildcard.fits` decides whether it covers a whole name. `Wildcard.Covers` says the same as
a relation.

A star covers any code points, a question mark covers one, and brackets cover one out of a set, or one outside of it
when the set starts with an exclamation mark. A bracket that is never closed stands for itself.
-/

namespace SourceTidy

/-- One part of a wildcard. -/
inductive Atom where
  /-- Any number of code points. -/
  | star
  /-- Any one code point. -/
  | any
  /-- This code point. -/
  | literal (c : CodePoint)
  /-- One code point in some ranges, or outside of all of them. -/
  | oneOf (negated : Bool) (ranges : List (Nat × Nat))
  deriving DecidableEq, Repr

/-- A wildcard. -/
abbrev Wildcard := List Atom

namespace Atom

/-- Whether an atom other than the star covers a code point. -/
def holds : Atom → CodePoint → Bool
  | star, _ => false
  | any, _ => true
  | literal d, c => d == c
  | oneOf negated ranges, c => (ranges.any fun r => c.within r.1 r.2) != negated

end Atom

namespace Wildcard

/-! ## Reading -/

/-- What stands between brackets, read after the opening one, and what follows the closing one. A closing bracket
directly at the start, or after an exclamation mark there, belongs to the set. -/
def bracket? (t : Text) : Option (Text × Text) :=
  let negation := if t.head? == some ('!' : CodePoint) then 1 else 0
  let member := if (t.drop negation).head? == some (']' : CodePoint) then 1 else 0
  let skip := negation + member
  ((t.drop skip).findIdx? fun c : CodePoint => c == ']').map fun n => (t.take (skip + n), t.drop (skip + n + 1))

/-- The contents of brackets, cut at the hyphens that make ranges: a hyphen makes none when fewer than the given number
of code points come before it in its piece. After the first hyphen this number is two, since the end of one range is
not the start of the next. -/
def pieces : Nat → Text → List Text
  | _, [] => [[]]
  | keep, c :: rest =>
    if keep = 0 && c == '-' then [] :: pieces 2 rest
    else
      match pieces (keep - 1) rest with
      | [] => [[c]]
      | p :: ps => (c :: p) :: ps

/-- A hyphen at the very end stands for itself. -/
def closeLast : List Text → List Text
  | [] => []
  | [p] => [p]
  | [p, []] => [p ++ Text.ofString "-"]
  | p :: q :: ps => p :: closeLast (q :: ps)

/-- A piece put before others: a range whose ends are in the wrong order is dropped together with its ends. -/
def dropReversed (p : Text) : List Text → List Text
  | [] => [p]
  | q :: ps =>
    match p.getLast?, q.head? with
    | some a, some b => if b.toNat < a.toNat then (p.dropLast ++ q.tail) :: ps else p :: q :: ps
    | _, _ => p :: q :: ps

/-- The ranges of some pieces: each code point on its own, and from the end of a piece to the start of the next. A
hyphen with nothing before it stands for itself. -/
def rangesOf : List Text → List (Nat × Nat)
  | [] => []
  | [p] => p.map fun c => (c.toNat, c.toNat)
  | p :: q :: ps =>
    let joint :=
      match p.getLast?, q.head? with
      | some a, some b => (a.toNat, b.toNat)
      | _, _ => (0x2D, 0x2D)
    p.map (fun c => (c.toNat, c.toNat)) ++ joint :: rangesOf (q :: ps)

/-- The set of the contents of brackets. -/
def setOf (contents : Text) : Atom :=
  let keep := if contents.head? == some ('!' : CodePoint) then 2 else 1
  match (closeLast (pieces keep contents)).foldr dropReversed [] with
  | (c :: p) :: ps => if c = '!' then .oneOf true (rangesOf (p :: ps)) else .oneOf false (rangesOf ((c :: p) :: ps))
  | ps => .oneOf false (rangesOf ps)

/-- The wildcard of what is left of a text after passing over some code points. -/
def ofTextAfter : Nat → Text → Wildcard
  | _, [] => []
  | n + 1, _ :: rest => ofTextAfter n rest
  | 0, c :: rest =>
    if c = '*' then .star :: ofTextAfter 0 rest
    else if c = '?' then .any :: ofTextAfter 0 rest
    else if c = '[' then
      match bracket? rest with
      | some (contents, _) => setOf contents :: ofTextAfter (contents.length + 1) rest
      | none => .literal c :: ofTextAfter 0 rest
    else .literal c :: ofTextAfter 0 rest

/-- The wildcard that a text writes. -/
def ofText (t : Text) : Wildcard := ofTextAfter 0 t

/-! ## Matching -/

/-- What a wildcard covers, code point by code point. -/
inductive Covers : Wildcard → Text → Prop where
  | nil : Covers [] []
  | star (s : Text) {w : Wildcard} {t : Text} : Covers w t → Covers (.star :: w) (s ++ t)
  | one {a : Atom} {c : CodePoint} {w : Wildcard} {t : Text} : a.holds c = true → Covers w t → Covers (a :: w) (c :: t)

/-- For each end of a list, the whole list first and the empty one last, whether it or a shorter end is marked. -/
def anyAfter : List Bool → List Bool
  | [] => []
  | b :: rest =>
    let later := anyAfter rest
    (b || later.headD false) :: later

/-- For each end of a name, the whole name first and the empty one last, whether the wildcard covers it. -/
def table (name : Text) : Wildcard → List Bool
  | [] => name.map (fun _ => false) ++ [true]
  | .star :: w => anyAfter (table name w)
  | a :: w => List.zipWith (fun c b => a.holds c && b) name (table name w).tail ++ [false]

/-- Whether a wildcard covers a whole name. -/
def fits (w : Wildcard) (name : Text) : Bool := (table name w).headD false

end Wildcard
end SourceTidy
