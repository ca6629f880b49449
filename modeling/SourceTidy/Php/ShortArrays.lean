import SourceTidy.Php.Token

/-!
# Short arrays

Which parts of a PHP source change when `array(...)` literals are written `[...]`. The edits are found in one pass over
the tokens, with a stack that remembers for each open parenthesis whether it belongs to an array literal. They are then
made from the last to the first, so that the offsets of those to come stay right.
-/

namespace SourceTidy.Php

/-- Some code points to be replaced: from `start` up to but without `stop`. -/
structure Edit where
  start : Nat
  stop : Nat
  replacement : CodePoint
  deriving DecidableEq, Repr

namespace Edit

/-- A text after an edit. -/
def apply (e : Edit) (t : Text) : Text := t.take e.start ++ e.replacement :: t.drop e.stop

/-- A text after edits in ascending order, made from the last to the first. -/
def applyAll (edits : List Edit) (t : Text) : Text := edits.foldr apply t

end Edit

namespace ShortArrays

/-- What is known in the middle of a source. -/
structure State where
  /-- For each open parenthesis, the innermost first, whether it opens an array literal. -/
  opened : List Bool := []
  /-- Where the word `array` stands, when nothing but trivia was read since. -/
  pending : Option Nat := none
  /-- The last token that is no trivia, in lower case. -/
  previous : Text := []

/-- The words after which `array` is the name of a member or a function. -/
def namingWords : List Text := ["->", "?->", "::", "function"]

/-- Whether a token is the word `array`. -/
def isArrayWord (k : Token) : Bool :=
  k.text.asciiLower == Text.ofString "array" && (k.kind == .keyword || k.kind.isName)

/-- One mark of punctuation at an offset: the edits it makes and the state after it. -/
def mark (s : State) (offset : Nat) (c : CodePoint) : List Edit × State :=
  if c = '(' then
    (s.pending.toList.map fun start => ⟨start, offset + 1, '['⟩,
      { s with opened := s.pending.isSome :: s.opened, pending := none })
  else if c = ')' then
    match s.opened with
    | [] => ([], { s with pending := none })
    | isArray :: below =>
      (if isArray then [⟨offset, offset + 1, ']'⟩] else [], { s with opened := below, pending := none })
  else ([], { s with pending := none })

/-- The marks of a token of punctuation, from an offset on. -/
def marks (s : State) : Nat → Text → List Edit × State
  | _, [] => ([], s)
  | offset, c :: rest =>
    let (edits, s') := mark s offset c
    let (more, s'') := marks s' (offset + 1) rest
    (edits ++ more, s'')

/-- One token: the edits it makes and the state after it. -/
def token (s : State) (k : Token) : List Edit × State :=
  if k.text.isEmpty || k.kind.isTrivia then ([], s)
  else
    let (edits, s') :=
      if k.kind = .punctuation then marks s k.offset k.text
      else if isArrayWord k && !namingWords.contains s.previous then ([], { s with pending := some k.offset })
      else ([], { s with pending := none })
    (edits, { s' with previous := k.text.asciiLower })

/-- The edits of the tokens that follow a state. -/
def editsFrom (s : State) : List Token → List Edit
  | [] => []
  | k :: ks =>
    let (edits, s') := token s k
    edits ++ editsFrom s' ks

/-- The edits of a source, in ascending order. -/
def edits (ks : List Token) : List Edit := (editsFrom {} ks).mergeSort fun a b => decide (a.start ≤ b.start)

end ShortArrays
end SourceTidy.Php
