import SourceTidy.Text.Category

/-!
# Quoted texts

Messages show a text between quotes, on one line and with every invisible code point spelled out. Single quotes are
used unless the text holds a single quote and no double one.
-/

namespace SourceTidy
namespace Text

/-- A digit of the hexadecimal system, in lower case. -/
def hexDigit (n : Nat) : CodePoint := if n < 10 then .ofNat (0x30 + n) else .ofNat (0x57 + n)

/-- The last digits of a number in the hexadecimal system, a fixed count of them. -/
def hexDigits : Nat → Nat → Text
  | 0, _ => []
  | count + 1, n => hexDigits count (n / 16) ++ [hexDigit (n % 16)]

/-- A code point spelled by its number: two, four or eight digits. -/
def spelled (c : CodePoint) : Text :=
  if c.toNat < 0x100 then "\\x" ++ hexDigits 2 c.toNat
  else if c.toNat < 0x10000 then "\\u" ++ hexDigits 4 c.toNat
  else "\\U" ++ hexDigits 8 c.toNat

/-- A code point as it stands between quotes. -/
def quotedPoint (quote c : CodePoint) : Text :=
  if c = quote || c = '\\' then ['\\', c]
  else if c = '\n' then ofString "\\n"
  else if c = '\r' then ofString "\\r"
  else if c = '\t' then ofString "\\t"
  else if c.isVisible then [c]
  else spelled c

/-- The quote that a text is shown in. -/
def quoteFor (t : Text) : CodePoint :=
  if t.contains ('\'' : CodePoint) && !t.contains ('"' : CodePoint) then '"' else '\''

/-- A text between quotes. -/
def quoted (t : Text) : Text :=
  let quote := quoteFor t
  [quote] ++ t.flatMap (quotedPoint quote) ++ [quote]

/-- A list of texts, each between quotes. -/
def quotedList (ts : List Text) : Text := "[" ++ join ", " (ts.map quoted) ++ "]"

end Text
end SourceTidy
