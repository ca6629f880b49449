import SourceTidy.Php.Rules

/-!
# The tokens of a PHP source

`tokens` cuts any text into tokens. No rule can lose or invent a code point, because `slices` cuts the tokens of a rule
from the text one after the other, and where no rule fits, one code point becomes a token of its own.
-/

namespace SourceTidy.Php

/-- The first rule that fits: how it cuts the text and what it does to the stack. -/
def firstCut (rs : List Rule) (t : Text) : Option (Cut × Move) :=
  rs.findSome? fun r => (r.cut t).map fun cut => (cut, r.move)

/-- The stack of modes after a move; the last mode of a stack stays. -/
def Move.apply : Move → List Mode → List Mode
  | .stay, stack => stack
  | .push m, stack => m :: stack
  | .pop, _ :: m :: stack => m :: stack
  | .pop, stack => stack

/-- Tokens of given kinds and lengths, cut from a text one after the other. -/
def slices : Nat → List (TokenKind × Nat) → Text → List Token
  | _, [], _ => []
  | offset, (kind, n) :: parts, t =>
    match t.take n with
    | [] => slices offset parts t
    | piece => ⟨offset, kind, piece⟩ :: slices (offset + piece.length) parts (t.drop n)

/-- How much of a text tokens of given lengths take. -/
def totalLength (parts : List (TokenKind × Nat)) : Nat := parts.foldr (fun part n => part.2 + n) 0

/-- The tokens of a text that starts at an offset, read with a stack of modes. A rule that takes nothing leaves the mode
it belongs to; if there is no mode to go back to, the reading goes on as where no rule fits. -/
def tokensFrom (offset : Nat) (stack : List Mode) : Text → List Token
  | [] => []
  | c :: rest =>
    let t := c :: rest
    match firstCut (rules (stack.headD .html)) t with
    | some (.tokens parts, move) =>
      let n := totalLength parts
      if 0 < n then
        slices offset parts t ++ tokensFrom (offset + (t.take n).length) (move.apply stack) (t.drop n)
      else
        match stack with
        | _ :: m :: below => tokensFrom offset (m :: below) (c :: rest)
        | _ => ⟨offset, .error, [c]⟩ :: tokensFrom (offset + 1) stack rest
    | some (.embedded opening code closing _, move) =>
      let afterOpening := t.drop opening
      slices offset [(.interpolation, opening)] t
        ++ tokensFrom (offset + (t.take opening).length) [.code, .html] (afterOpening.take code)
        ++ slices (offset + (t.take (opening + code)).length) [(.interpolation, closing)] (afterOpening.drop code)
        ++ tokensFrom (offset + (t.take (opening + code + closing)).length) (move.apply stack)
            (t.drop (opening + code + closing))
    | none =>
      if c = '\n' then ⟨offset, .reset, [c]⟩ :: tokensFrom (offset + 1) [.html] rest
      else ⟨offset, .error, [c]⟩ :: tokensFrom (offset + 1) stack rest
termination_by t => (t.length, stack.length)
decreasing_by all_goals (simp_wf; omega)

/-- The tokens of a PHP source. -/
def tokens (t : Text) : List Token := tokensFrom 0 [.html] t

end SourceTidy.Php
