import SourceTidy.Text.Category

/-!
# Lines

A line ends at U+000A and nowhere else, and lines are counted from one. `spaceIndentation?` finds the first line that is
indented with something other than tabs.
-/

namespace SourceTidy
namespace Text

/-- The line feed, which ends a line. -/
def lineFeed : CodePoint := '\n'

/-- The carriage return. -/
def carriageReturn : CodePoint := '\r'

/-- The tabulator. -/
def tab : CodePoint := '\t'

/-- The line that holds an offset: one more than the line feeds before it. An offset beyond the end counts as the
end. -/
def lineAt (t : Text) (offset : Nat) : Nat := (t.take offset).count lineFeed + 1

/-- The place that a signed offset names: a negative one counts from the end, and none lies before the start. -/
def place (t : Text) (offset : Int) : Nat := if offset < 0 then (t.length + offset).toNat else offset.toNat

/-- A text with every pair of carriage return and line feed as one line feed. -/
def joinPairs : Text → Text
  | [] => []
  | [c] => [c]
  | c :: d :: rest => if c = carriageReturn ∧ d = lineFeed then d :: joinPairs rest else c :: joinPairs (d :: rest)

/-- Whether a line ends at the head of a text, with or without a carriage return before its end. -/
def endsLine : Text → Bool
  | [] => true
  | [c] => c == lineFeed || c == carriageReturn
  | c :: d :: _ => c == lineFeed || (c == carriageReturn && d == lineFeed)

/-- Whether a text starts with blanks, line ends among them, and the first code point after them is a star: the
continuation of a block comment. -/
def startsStarred (t : Text) : Bool :=
  (t.head?.any CodePoint.isBlank) && (t.dropWhile CodePoint.isBlank).head? == some ('*' : CodePoint)

/-- Whether the line at the head of a text is refused: after its tabs comes a blank that does not end it, and it does
not continue a block comment. -/
def isSpaceIndented (t : Text) : Bool :=
  let body := t.dropWhile (· == tab)
  !endsLine body && body.head?.any CodePoint.isBlank && !startsStarred t

/-- The offset of the first refused line, reading on at an offset that is or is not a line's start. -/
def spaceIndentationFrom : Nat → Bool → Text → Option Nat
  | _, _, [] => none
  | offset, atStart, c :: rest =>
    if atStart && isSpaceIndented (c :: rest) then some offset
    else spaceIndentationFrom (offset + 1) (c == lineFeed) rest

/-- The offset of the first line that is indented with something other than tabs. -/
def spaceIndentation? (t : Text) : Option Nat := spaceIndentationFrom 0 true t

end Text
end SourceTidy
