import SourceTidy.Task.Basic
import SourceTidy.Text.Cells

/-!
# Styled lines

What is printed is a text in pieces, each with a style or without one. Control characters that would move the cursor are
left out when a piece is added: which ones is a matter of the console (`Console`). Tabs become blanks when the text is printed.
A terminal is told of a style before a piece and of its end after it, and no style goes on past a line end or a tab.
-/

namespace SourceTidy.Report

open Text (lineFeed tab)

/-- What a piece stands for, which decides how it looks. -/
inductive Style where
  | level (l : Level)
  | directory
  | file
  deriving DecidableEq, Repr

namespace Style

/-- The name of a style. -/
def name : Style → String
  | level .fix => "bold bright_cyan"
  | level .warning => "bold bright_yellow"
  | level .error => "bold bright_red"
  | directory => "white"
  | file => "bold bright_white"

/-- The codes that a terminal knows a style by. -/
def codes : Style → String
  | level .fix => "1;96"
  | level .warning => "1;93"
  | level .error => "1;91"
  | directory => "37"
  | file => "1;97"

end Style

/-- A part of a text with its style. -/
structure Piece where
  text : Text
  style : Option Style := none
  deriving DecidableEq, Repr

/-- A text in pieces. -/
abbrev Styled := List Piece

/-- What pieces are put together for. -/
structure Console where
  /-- Whether a control character never reaches the terminal. -/
  drops : CodePoint → Bool

/-- A text without the control characters that never reach the terminal. -/
def Console.keep (console : Console) (t : Text) : Text := t.filter fun c => !console.drops c

/-- A control character that would ring the bell or move the cursor. -/
def isStripped (c : CodePoint) : Bool := c.within 0x7 0x8 || c.within 0xB 0xD

/-- The console that there is in a run. -/
def Console.usual : Console := ⟨isStripped⟩

/-- A text without the control characters that never reach a terminal in a run. -/
def stripControls (t : Text) : Text := Console.usual.keep t

namespace Styled

/-- A text in pieces with one more at its end. -/
def add (s : Styled) (console : Console) (t : Text) (style : Option Style) : Styled := s ++ [⟨console.keep t, style⟩]

/-- The text without its styles. -/
def plain (s : Styled) : Text := s.flatMap (·.text)

/-- Where each styled piece that is not empty starts and stops, from an offset on. -/
def spansFrom (offset : Nat) : Styled → List (Nat × Nat × Style)
  | [] => []
  | p :: rest =>
    let stop := offset + p.text.length
    match p.style with
    | some style => if p.text.isEmpty then spansFrom stop rest else (offset, stop, style) :: spansFrom stop rest
    | none => spansFrom stop rest

/-- Where each styled piece that is not empty starts and stops. -/
def spans (s : Styled) : List (Nat × Nat × Style) := spansFrom 0 s

/-! ## Printing -/

/-- A text in pieces cut at a sign, which is left out. The cut piece before the sign may be empty, and is kept. -/
def split (sign : CodePoint) : Styled → List Styled
  | [] => [[]]
  | p :: rest =>
    let parts := (Text.split sign p.text).map fun t => ⟨t, p.style⟩
    match parts.getLast?, split sign rest with
    | some last, first :: others => (parts.dropLast.map fun q => [q]) ++ (last :: first) :: others
    | _, others => others

/-- The lines of a text in pieces. -/
def lines : Styled → List Styled := split lineFeed

/-- A text in pieces with blanks at its end that look like its last piece. -/
def fill (count : Nat) : Styled → Styled
  | [] => []
  | [p] => [{ p with text := p.text ++ List.replicate count (' ' : CodePoint) }]
  | p :: rest => p :: fill count rest

/-- How far apart the stops of a tab are. -/
def tabStop : Nat := 8

/-- Parts that stood between tabs, from a column on: a tab becomes one blank, measured together with the part before it,
and then as many as are left to the next stop. -/
def expandParts (column : Nat) : List Styled → Styled
  | [] => []
  | [part] => part
  | part :: rest =>
    let reached := column + Text.cells (plain part ++ [(' ' : CodePoint)])
    let stop := (reached + tabStop - 1) / tabStop * tabStop
    fill (1 + (stop - reached)) part ++ expandParts stop rest

/-- A line with blanks in place of its tabs. -/
def expandTabs (line : Styled) : Styled := expandParts 0 (split tab line)

/-- The escape character. -/
def escape : CodePoint := .ofNat 0x1B

/-- A piece as a terminal gets it. -/
def printedPiece (p : Piece) : Text :=
  match p.style with
  | none => p.text
  | some style =>
    if p.text.isEmpty then []
    else [escape] ++ "[" ++ Text.ofString style.codes ++ "m" ++ p.text ++ [escape] ++ "[0m"

/-- A text in pieces as it is printed, with a line end after it. -/
def printed (s : Styled) : Text :=
  (lines s).flatMap fun line => (expandTabs line).flatMap printedPiece ++ [lineFeed]

end Styled
end SourceTidy.Report
