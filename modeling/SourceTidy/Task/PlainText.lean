import SourceTidy.Task.Basic

/-!
# Tasks for any text

Checks and corrections of control characters, byte order marks, undecodable bytes, line ends, blanks and tabs.
-/

namespace SourceTidy.Task

open Text (lineFeed carriageReturn tab)

/-! ## Control characters, byte order marks and undecodable bytes -/

/-- A control character of ASCII other than tab, line feed and carriage return. -/
def isControl (c : CodePoint) : Bool := c.within 0 8 || c.within 0xB 0xC || c.within 0xE 0x1F

/-- Reports the first control character. -/
def checkControlCharacters (t : Text) : List Notice := Notice.atFirst .error "Contains control characters" isControl t

/-- The byte order mark. -/
def byteOrderMark : CodePoint := .ofNat 0xFEFF

/-- Takes away a byte order mark at the start. -/
def fixByteOrderMark : Text → List Notice × Text
  | [] => ([], [])
  | c :: rest => if c = byteOrderMark then ([⟨.fix, "contains BOM", none⟩], rest) else ([], c :: rest)

/-- Reports the first byte that is not part of UTF-8. -/
def checkEncoding (t : Text) : List Notice := Notice.atFirst .error "Is not valid UTF-8 file" (·.within 0xDC80 0xDCFF) t

/-! ## Line ends -/

/-- A text with a line feed for every carriage return. -/
def replaceReturns (t : Text) : Text := t.map fun c => if c = carriageReturn then lineFeed else c

/-- Makes every line end a line feed: first the pairs, then the carriage returns that are left. -/
def fixLineEnds (t : Text) : List Notice × Text :=
  let fixed := replaceReturns t.joinPairs
  (if fixed = t then [] else [⟨.fix, "contains non-system line-endings", none⟩], fixed)

/-! ## Blanks at the ends of lines and of the file -/

/-- A blank that may be taken away at the end of a line. -/
def isLineBlank (c : CodePoint) : Bool := c == tab || c == ' '

/-- What may be taken away at the end of a file: blanks, line ends, and the characters U+0000 and U+000B. -/
def isEndBlank (c : CodePoint) : Bool :=
  c == ' ' || c == tab || c == carriageReturn || c == lineFeed || c.toNat == 0 || c.toNat == 0xB

/-- The line end at the head of a text, if there is one: a line feed, with or without one carriage return before it. -/
def lineEnd? : Text → Option Text
  | [] => none
  | [c] => if c = lineFeed then some [lineFeed] else none
  | c :: d :: _ =>
    if c = lineFeed then some [lineFeed]
    else if c = carriageReturn ∧ d = lineFeed then some [carriageReturn, lineFeed]
    else none

/-- A text without the runs of blanks that stand directly before a line end. -/
def stripLineBlanks : Text → Text
  | [] => []
  | c :: rest =>
    if isLineBlank c && (lineEnd? (rest.dropWhile isLineBlank)).isSome then stripLineBlanks rest
    else c :: stripLineBlanks rest

/-- The first line end of a text, and a line feed if there is none. -/
def firstLineEnd : Text → Text
  | [] => [lineFeed]
  | c :: rest => (lineEnd? (c :: rest)).getD (firstLineEnd rest)

/-- A text without blanks at the ends of its lines, and with just one line end at its end unless nothing is left. -/
def tidyBlanks (t : Text) : Text :=
  let stripped := stripLineBlanks t
  let body := Text.dropRightWhile isEndBlank stripped
  if body.isEmpty then [] else body ++ firstLineEnd stripped

/-- Takes away trailing blanks and sees to the line end at the end of the file. -/
def fixTrailingBlanks (t : Text) : List Notice × Text :=
  let fixed := tidyBlanks t
  if fixed = t then ([], t)
  else if fixed.length < t.length then
    ([⟨.fix, Text.ofNat (t.length - fixed.length) ++ " bytes of whitespaces", none⟩], fixed)
  else ([⟨.fix, "missing newline at end of file", none⟩], fixed)

/-! ## Indentation -/

/-- Reports the first line that is indented with something other than tabs. -/
def checkTabIndentation (t : Text) : List Notice :=
  (t.spaceIndentation?.map fun n => Notice.at .error "Used space to indentate instead of tab" t n).toList

/-- The offset of the first line whose text meets a condition, reading on at an offset that is or is not a line's
start. The condition is given the text from the line's start on. -/
def firstLineFrom (p : Text → Bool) : Nat → Bool → Text → Option Nat
  | _, _, [] => none
  | offset, atStart, c :: rest =>
    if atStart && p (c :: rest) then some offset else firstLineFrom p (offset + 1) (c == lineFeed) rest

/-- The offset of the first line whose text meets a condition. -/
def firstLine? (p : Text → Bool) (t : Text) : Option Nat := firstLineFrom p 0 true t

/-- Whether a text starts with a tab. -/
def startsWithTab (t : Text) : Bool := t.head? == some tab

/-- Reports the first line that starts with a tab. -/
def checkYamlIndentation (t : Text) : List Notice :=
  ((firstLine? startsWithTab t).map fun n =>
    Notice.at .error "Used tabs to indentate instead of spaces" t n).toList

/-- Whether the line at the head of a text has a tab after something that is neither a tab nor a line end. A line that
starts with two slashes is let be. -/
def hasInnerTab (t : Text) : Bool :=
  let body := t.dropWhile (· == tab)
  let afterBody := body.dropWhile fun c => c != tab && c != carriageReturn && c != lineFeed
  !Text.startsWith t "//" && afterBody.length < body.length && startsWithTab afterBody

/-- Reports the first line with a tab that does not indent it. -/
def checkInnerTabs (t : Text) : List Notice :=
  ((firstLine? hasInnerTab t).map fun n => Notice.at .error "Found unexpected tabulator" t n).toList

end SourceTidy.Task
