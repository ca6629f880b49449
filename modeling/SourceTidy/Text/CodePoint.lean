/-!
# Code points

A text is a list of code points, surrogates included. A file need not be valid UTF-8, so the bytes that no character
covers have to live in the text as something that is no character: the surrogates do that
(`SourceTidy.Text.Utf8` says which byte becomes which surrogate). A code point is therefore any number below
`0x110000`, and not a `Char`.
-/

namespace SourceTidy

/-- A Unicode code point: a scalar value or a surrogate. -/
structure CodePoint where
  toNat : Nat
  isValid : toNat < 0x110000
  deriving DecidableEq, Repr

namespace CodePoint

@[ext] theorem ext {a b : CodePoint} (h : a.toNat = b.toNat) : a = b := by
  cases a; cases b; simp_all

/-- The code point of a character. -/
def ofChar (c : Char) : CodePoint :=
  ⟨c.toNat, by
    have h := c.valid
    have e : c.toNat = c.val.toNat := rfl
    simp only [UInt32.isValidChar, Nat.isValidChar] at h
    omega⟩

instance : Coe Char CodePoint := ⟨ofChar⟩

/-- The code point with a number, and U+FFFD for a number that is none. -/
def ofNat (n : Nat) : CodePoint :=
  if h : n < 0x110000 then ⟨n, h⟩ else ⟨0xFFFD, by decide⟩

instance : Inhabited CodePoint := ⟨ofChar ' '⟩

/-- Texts are compared by the numbers of their code points. -/
instance : Ord CodePoint := ⟨fun a b => compare a.toNat b.toNat⟩

/-- Whether a code point is a surrogate, so that no character and no UTF-8 sequence stands for it. -/
def isSurrogate (c : CodePoint) : Bool := decide (0xD800 ≤ c.toNat ∧ c.toNat < 0xE000)

/-- The character of a code point that is no surrogate. -/
def toChar? (c : CodePoint) : Option Char :=
  if c.isSurrogate then none else some (Char.ofNat c.toNat)

/-- Whether a code point lies between two others, ends included. -/
def within (c : CodePoint) (first last : Nat) : Bool := decide (first ≤ c.toNat ∧ c.toNat ≤ last)

/-- A digit of the decimal system written in ASCII. -/
def isAsciiDigit (c : CodePoint) : Bool := c.within 0x30 0x39

/-- A digit of the hexadecimal system written in ASCII, in either case. -/
def isHexDigit (c : CodePoint) : Bool := c.isAsciiDigit || c.within 0x41 0x46 || c.within 0x61 0x66

/-- A letter of ASCII. -/
def isAsciiLetter (c : CodePoint) : Bool := c.within 0x41 0x5A || c.within 0x61 0x7A

/-- The value of a hexadecimal digit, and zero for anything else. -/
def digitValue (c : CodePoint) : Nat :=
  if c.within 0x30 0x39 then c.toNat - 0x30
  else if c.within 0x41 0x46 then c.toNat - 0x37
  else if c.within 0x61 0x66 then c.toNat - 0x57
  else 0

/-- An ASCII letter in lower case; every other code point stays. -/
def asciiLower (c : CodePoint) : CodePoint :=
  if c.within 0x41 0x5A then ofNat (c.toNat + 0x20) else c

end CodePoint

/-- A text: its code points in order. -/
abbrev Text := List CodePoint

namespace Text

/-- The text of a string. -/
def ofString (s : String) : Text := s.toList.map CodePoint.ofChar

instance : Coe String Text := ⟨ofString⟩

/-- The string of a text, with U+FFFD for each surrogate. -/
def toString (t : Text) : String :=
  String.ofList (t.map fun c => c.toChar?.getD (Char.ofNat 0xFFFD))

/-- Code point order of texts, as a lexical order: a proper initial part comes first. -/
def lt : Text → Text → Bool
  | _, [] => false
  | [], _ :: _ => true
  | a :: s, b :: t => if a = b then lt s t else decide (a.toNat < b.toNat)

/-- Not after in code point order. -/
def le (s t : Text) : Bool := !lt t s

/-- The decimal text of a number. -/
def ofNat (n : Nat) : Text := ofString (Nat.repr n)

/-- The texts sorted by code point. -/
def sort (ts : List Text) : List Text := ts.mergeSort le

/-- The texts one after the other, with a separator between neighbours. -/
def join (separator : Text) : List Text → Text
  | [] => []
  | [t] => t
  | t :: u :: rest => t ++ separator ++ join separator (u :: rest)

/-- The pieces of a text between the places where a separator stands: always one more than separators. -/
def split (separator : CodePoint) : Text → List Text
  | [] => [[]]
  | c :: rest =>
    match split separator rest with
    | [] => [[c]]
    | piece :: pieces => if c = separator then [] :: piece :: pieces else (c :: piece) :: pieces

/-- What follows an initial part, if the text starts with that part. -/
def dropPrefix? : Text → Text → Option Text
  | t, [] => some t
  | [], _ :: _ => none
  | c :: t, p :: ps => if c = p then dropPrefix? t ps else none

/-- Whether a text starts with another. -/
def startsWith (t start : Text) : Bool := (dropPrefix? t start).isSome

/-- A text without the longest end that consists of code points of a class. -/
def dropRightWhile (p : CodePoint → Bool) (t : Text) : Text :=
  t.foldr (fun c rest => if rest.isEmpty && p c then [] else c :: rest) []

/-- A text with ASCII letters in lower case. -/
def asciiLower (t : Text) : Text := t.map CodePoint.asciiLower

/-- A text filled up with blanks on the right to a width. -/
def padRight (width : Nat) (t : Text) : Text := t ++ List.replicate (width - t.length) (' ' : CodePoint)

/-- A text filled up with blanks on the left to a width. -/
def padLeft (width : Nat) (t : Text) : Text := List.replicate (width - t.length) (' ' : CodePoint) ++ t

/-- Every occurrence of a part replaced, from left to right; an empty part occurs before each code point and at the
end. The first argument counts the code points of the last occurrence that are still to be passed over. -/
def replaceAfter (old new : Text) : Nat → Text → Text
  | _, [] => []
  | n + 1, _ :: rest => replaceAfter old new n rest
  | 0, c :: rest =>
    if startsWith (c :: rest) old then new ++ replaceAfter old new (old.length - 1) rest
    else c :: replaceAfter old new 0 rest

/-- Every occurrence of `old` replaced by `new`. -/
def replace (t old new : Text) : Text :=
  if old.isEmpty then t.flatMap (fun c => new ++ [c]) ++ new else replaceAfter old new 0 t

end Text
end SourceTidy
