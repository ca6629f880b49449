import SourceTidy.Report.Markup
import SourceTidy.Report.Styled

/-!
# Status lines

The lines that tell how a run goes, apart from its findings: headings, notes, and good and bad news. They go to a stream
that shows no colour, so that only the headings look different when colour is asked for.
-/

namespace SourceTidy.Report

/-- A text as a line. -/
def line (t : Text) : Text := Styled.printed [⟨stripControls t, none⟩]

/-- What a status line tells. -/
inductive Status where
  | info
  | ok
  | warn
  | fail
  deriving DecidableEq, Repr

/-- The sign before a status line. -/
def Status.sign : Status → String
  | info => "ℹ️ "
  | ok => "✅ "
  | warn => "⚠️ "
  | fail => "❌ "

/-- A status line, with a sign on demand. -/
def Status.line (s : Status) (emoji : Bool) (message : Text) : Text :=
  Report.line ((if emoji then Text.ofString s.sign else []) ++ message)

/-! ## Headings -/

/-- The width of a ruled heading. -/
def ruleWidth : Nat := 80

/-- The sign of which rules are made. -/
def ruleSign : CodePoint := '─'

/-- A title on one line with blanks in place of tabs, cut off with dots when it is too wide for a rule. -/
def ruleTitle (title : Text) : Text :=
  let oneLine := (stripControls title).map fun c => if c = Text.lineFeed then (' ' : CodePoint) else c
  let expanded := Styled.plain (Styled.expandTabs [⟨oneLine, none⟩])
  if Text.cells expanded ≤ ruleWidth - 4 then expanded else Text.setCells (ruleWidth - 5) expanded ++ "…"

/-- A title in the middle of a rule. -/
def ruleAround (title : Text) : Text :=
  let side := (ruleWidth - Text.cells title) / 2
  let left := List.replicate (side - 1) ruleSign
  let right := List.replicate (min (side + 1) (ruleWidth - (side - 1) - Text.cells title)) ruleSign
  Text.setCells ruleWidth (left ++ " " ++ title ++ " " ++ right)

/-- A rule around a title that is written with markup; an empty one leaves the rule alone. -/
def rule (title : Text) : Except MarkupError Text :=
  if title.isEmpty then .ok (List.replicate ruleWidth ruleSign ++ "\n")
  else (Markup.plain title).map fun shown => ruleAround (ruleTitle shown) ++ "\n"

/-- A heading: a rule when colour is asked for, and an underlined title otherwise. -/
def heading (color : Bool) (title : Text) : Except MarkupError Text :=
  if color then rule title else .ok (line title ++ line (List.replicate title.length ('-' : CodePoint)))

end SourceTidy.Report
