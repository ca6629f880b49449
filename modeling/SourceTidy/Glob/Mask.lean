import SourceTidy.Glob.Wildcard
import SourceTidy.Text.CaseFold

/-!
# Masks

A mask is a list of wildcards between commas, and names are compared with it without regard to case. A mask that starts
with an exclamation mark means the names that none of its wildcards covers.
-/

namespace SourceTidy.Mask

/-- The sign that negates a mask. -/
def negation : CodePoint := '!'

/-- The sign between the wildcards of a mask. -/
def separator : CodePoint := ','

/-- Whether a mask is negated. -/
def isNegated (mask : Text) : Bool := mask.head? == some negation

/-- The written wildcards of a mask. -/
def alternatives (mask : Text) : List Text := Text.split separator (mask.dropWhile (· == negation))

/-- Whether one written wildcard covers a name but for case. -/
def covers (alternative name : Text) : Bool := (Wildcard.ofText alternative.caseFold).fits name.caseFold

/-- Whether a name fits a mask. -/
def accepts (mask name : Text) : Bool := (alternatives mask).any (covers · name) != isNegated mask

end SourceTidy.Mask
