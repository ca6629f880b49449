import SourceTidy.Text.Category

/-!
# Scans

A scan looks at the head of a text and says how many code points it takes, or that it takes none of it at all. Words
are compared without regard to case, in the sense in which U+212A is a K, U+017F an S, and the two letters I of Turkish
an I.
-/

namespace SourceTidy.Php

/-- How much of the head of a text is taken, if the text has the right form. -/
abbrev Scan := Text → Option Nat

/-- A code point as words are compared: ASCII letters in lower case, and the four letters beyond ASCII that only differ
in case from one of them. -/
def bareCase (c : CodePoint) : CodePoint :=
  if c.toNat = 0x212A then 'k'
  else if c.toNat = 0x17F then 's'
  else if c.toNat = 0x130 || c.toNat = 0x131 then 'i'
  else c.asciiLower

/-- Whether a code point is a letter of ASCII but for its case. -/
def isBareLetter (c : CodePoint) : Bool := (bareCase c).within 0x61 0x7A

/-- Whether a code point starts a name without separators. -/
def startsSimpleName (c : CodePoint) : Bool := c == '_' || c.isAsciiLetter || decide (0x80 ≤ c.toNat)

/-- Whether a code point continues a name without separators. -/
def continuesSimpleName (c : CodePoint) : Bool := startsSimpleName c || c.isAsciiDigit

/-- Whether a code point starts a name, which may hold the separators of namespaces. -/
def startsName (c : CodePoint) : Bool := c == '\\' || startsSimpleName c

/-- Whether a code point continues a name. -/
def continuesName (c : CodePoint) : Bool := c == '\\' || continuesSimpleName c

namespace Scan

/-- Exactly these code points. -/
def exact (s : Text) : Scan := fun t => if t.startsWith s then some s.length else none

/-- These words in any case; the words are given in lower case. -/
def word (s : Text) : Scan := fun t => if (t.take s.length).map bareCase = s then some s.length else none

/-- As many code points of a class as there are. -/
def many (p : CodePoint → Bool) : Scan := fun t => some (t.takeWhile p).length

/-- As many code points of a class as there are, and at least one. -/
def some1 (p : CodePoint → Bool) : Scan := fun t =>
  match (t.takeWhile p).length with
  | 0 => none
  | n => some n

/-- One code point of a class. -/
def one (p : CodePoint → Bool) : Scan := fun t => if t.head?.any p then some 1 else none

/-- At most a number of code points of a class, and at least one. -/
def upTo (count : Nat) (p : CodePoint → Bool) : Scan := fun t => some1 p (t.take count)

/-- One scan after the other. -/
def andThen (a b : Scan) : Scan := fun t => do
  let n ← a t
  let m ← b (t.drop n)
  return n + m

/-- The first of two scans that takes anything. -/
def orElse (a b : Scan) : Scan := fun t => a t <|> b t

/-- A scan, or nothing where it fails. -/
def optional (a : Scan) : Scan := fun t => some ((a t).getD 0)

/-- Nothing, provided that no word goes on here. -/
def wordEnd : Scan := fun t => if t.head?.any CodePoint.isWord then none else some 0

/-- Nothing, provided that this code point comes next. -/
def ahead (c : CodePoint) : Scan := fun t => if t.head? == some c then some 0 else none

/-- Everything before the first place where some code points stand. -/
def before (stop : Text) : Scan
  | [] => if stop.isEmpty then some 0 else none
  | c :: rest => if Text.startsWith (c :: rest) stop then some 0 else (· + 1) <$> before stop rest

/-- Everything up to and with the first place where some code points stand. -/
def through (stop : Text) : Scan := andThen (before stop) (exact stop)

/-- A name. -/
def name : Scan := andThen (one startsName) (many continuesName)

/-- A name without separators of namespaces. -/
def simpleName : Scan := andThen (one startsSimpleName) (many continuesSimpleName)

/-- The body and the closing quote of a string in which a backslash takes the code point after it along. -/
def closing (quote : CodePoint) : Scan
  | [] => none
  | c :: rest =>
    if c = quote then some 1
    else if c = '\\' then
      match rest with
      | [] => none
      | _ :: rest' => (· + 2) <$> closing quote rest'
    else (· + 1) <$> closing quote rest

/-- The first place in a run of code points of a class, after its first, where a given one stands: how many come before
it. -/
def beforeFirst (p : CodePoint → Bool) (stop : CodePoint) : Scan := fun t =>
  let run := t.takeWhile p
  ((run.drop 1).findIdx? (· == stop)).map (· + 1)

/-- The last place in a run of code points of a class, after its first, where a given one stands: how many come before
it. -/
def beforeLast (p : CodePoint → Bool) (stop : CodePoint) : Scan := fun t =>
  let run := t.takeWhile p
  match (run.drop 1).reverse.dropWhile (· != stop) with
  | [] => none
  | _ :: front => some (front.length + 1)

end Scan
end SourceTidy.Php
