import Mathlib
import SourceTidy.Task.PhpSource
import SourceTidy.Proofs.Php.Tiles
import SourceTidy.Proofs.Text.Lines

/-!
# The indentation of PHP code

The check of the indentation looks at a copy of the source in which data is covered: string data and text outside of PHP code. The
copy is as long as the source and has its line feeds where the source has them (`getElem?_maskData`), so that a line of it is the
line of the source. What is covered indents no line; but the carriage returns of data are not covered, and a line that starts with
one which is no part of its end is blamed as any other (`indentation_blames_code_iff`).
-/

namespace SourceTidy.Task

open Text (lineFeed carriageReturn tab)
open SourceTidy.Php (Token Tiles Tokenizer)

/-! ## The covered copy -/

/-- What stands in the copy for a code point of data. -/
def cover (c : CodePoint) : CodePoint := if c = carriageReturn ∨ c = lineFeed then c else 'x'

/-- What stands in the copy for a code point of a token. -/
def coverIn (k : Token) (c : CodePoint) : CodePoint := if k.kind.isData then cover c else c

theorem coverIn_eq_lineFeed_iff (k : Token) (c : CodePoint) : coverIn k c = lineFeed ↔ c = lineFeed := by
  have hcover : cover c = lineFeed ↔ c = lineFeed := by
    unfold cover
    by_cases hc : c = carriageReturn ∨ c = lineFeed
    · rw [if_pos hc]
    · rw [if_neg hc]
      exact iff_of_false (by decide) fun h => hc (.inr h)
  unfold coverIn
  by_cases hk : k.kind.isData = true
  · rw [if_pos hk, hcover]
  · rw [if_neg hk]

theorem maskData_eq (ks : List Token) : maskData ks = ks.flatMap fun k => k.text.map (coverIn k) := by
  unfold maskData
  refine List.flatMap_congr ?_
  intro k _
  by_cases hk : k.kind.isData = true
  · rw [if_pos hk]
    exact List.map_congr_left fun c _ => by rw [coverIn, if_pos hk, cover]
  · rw [if_neg hk]
    exact (List.map_id'' (fun c => by rw [coverIn, if_neg hk]) k.text).symm

theorem length_maskData {offset : Nat} {ks : List Token} {t : Text} (h : Tiles offset ks t) :
    (maskData ks).length = t.length := by
  rw [h.eq_flatMap, maskData_eq, List.length_flatMap, List.length_flatMap]
  simp only [List.length_map]

/-- What stands in the copy at a place that a token holds. -/
theorem getElem?_maskData {ks : List Token} {t : Text} (h : Tiles 0 ks t) {k : Token} (hk : k ∈ ks) {n : Nat}
    (hn : k.Holds n) : (maskData ks)[n]? = t[n]?.map (coverIn k) := by
  obtain ⟨before, after, rfl⟩ := List.append_of_mem hk
  obtain ⟨front, rest, rfl, hoffset, hbefore, -⟩ := h.of_mem
  have hlength := length_maskData hbefore
  obtain ⟨hlow, hhigh⟩ := hn
  obtain ⟨i, rfl⟩ := Nat.exists_eq_add_of_le hlow
  rw [hoffset, Nat.zero_add] at hhigh ⊢
  have hi : i < k.text.length := by omega
  have hsplit : maskData (before ++ k :: after) = maskData before ++ k.text.map (coverIn k) ++ maskData after := by
    rw [maskData_eq, maskData_eq, maskData_eq, List.flatMap_append, List.flatMap_cons, List.append_assoc]
  rw [hsplit, List.append_assoc, List.append_assoc, ← hlength, List.getElem?_append_right (Nat.le_add_right _ _), hlength,
    List.getElem?_append_right (Nat.le_add_right _ _), Nat.add_sub_cancel_left,
    List.getElem?_append_left (by rwa [List.length_map]), List.getElem?_append_left hi, List.getElem?_map]

/-- The copy has its line feeds where the source has them. -/
theorem lineFeed_maskData_iff {ks : List Token} {t : Text} (h : Tiles 0 ks t) (n : Nat) :
    (maskData ks)[n]? = some lineFeed ↔ t[n]? = some lineFeed := by
  by_cases hn : n < t.length
  · obtain ⟨k, hk, hholds⟩ := h.exists_holds (Nat.zero_le n) (by rwa [Nat.zero_add])
    rw [getElem?_maskData h hk hholds, List.getElem?_eq_getElem hn]
    simp only [Option.map_some, Option.some.injEq, coverIn_eq_lineFeed_iff]
  · rw [List.getElem?_eq_none (by rw [length_maskData h]; omega), List.getElem?_eq_none (by omega)]

/-- The lines of the copy are those of the source. -/
theorem startsLine_maskData_iff {ks : List Token} {t : Text} (h : Tiles 0 ks t) (n : Nat) :
    Text.StartsLine (maskData ks) n ↔ Text.StartsLine t n := by
  cases n with
  | zero => simp only [Text.StartsLine, Text.StartsLineFrom, length_maskData h]
  | succ n => simp only [Text.StartsLine, Text.StartsLineFrom, length_maskData h, lineFeed_maskData_iff h]

/-! ## Lines that are blamed -/

/-- A carriage return stands at a place, and something other than a line feed after it. -/
def LoneReturnAt (t : Text) (n : Nat) : Prop :=
  t[n]? = some carriageReturn ∧ ∃ d, t[n + 1]? = some d ∧ d ≠ lineFeed

/-- A line that is refused starts with a tab or with another blank, and does not end right there. -/
theorem isSpaceIndented_cons {c : CodePoint} {t : Text} (h : Text.isSpaceIndented (c :: t) = true) (hc : c ≠ tab) :
    c.isBlank = true ∧ Text.endsLine (c :: t) = false := by
  have hbody : (c :: t).dropWhile (· == tab) = c :: t := List.dropWhile_cons_of_neg (by simpa using hc)
  simp only [Text.isSpaceIndented, hbody, List.head?_cons, Option.any_some, Bool.and_eq_true, Bool.not_eq_true'] at h
  exact ⟨h.1.2, h.1.1⟩

theorem endsLine_lineFeed (t : Text) : Text.endsLine (lineFeed :: t) = true := by
  cases t <;> rfl

/-- A line that does not end right at its carriage return goes on with something other than a line feed. -/
theorem exists_cons_of_endsLine {t : Text} (h : Text.endsLine (carriageReturn :: t) = false) :
    ∃ d rest, t = d :: rest ∧ d ≠ lineFeed := by
  cases t with
  | nil => cases h
  | cons d rest =>
    refine ⟨d, rest, rfl, ?_⟩
    rintro rfl
    cases h

/-- A line of the copy that is refused and starts with data starts with a lone carriage return. -/
theorem loneReturnAt_of_data {ks : List Token} {t : Text} (h : Tiles 0 ks t) {n : Nat}
    (hrefused : Text.isSpaceIndented ((maskData ks).drop n) = true) {k : Token} (hk : k ∈ ks) (hn : k.Holds n)
    (hdata : k.kind.isData = true) : LoneReturnAt t n := by
  cases hdrop : (maskData ks).drop n with
  | nil => rw [hdrop] at hrefused; cases hrefused
  | cons d rest =>
    have hd : (maskData ks)[n]? = some d := by rw [← List.head?_drop, hdrop, List.head?_cons]
    rw [getElem?_maskData h hk hn] at hd
    obtain ⟨c, hc, hcover⟩ := Option.map_eq_some_iff.1 hd
    rw [coverIn, if_pos hdata] at hcover
    rw [hdrop] at hrefused
    by_cases hreturn : c = carriageReturn
    · subst hreturn
      rw [cover, if_pos (.inl rfl)] at hcover
      subst hcover
      obtain ⟨e, rest', rfl, he⟩ := exists_cons_of_endsLine (isSpaceIndented_cons hrefused (by decide)).2
      refine ⟨hc, ?_⟩
      -- What comes next in the copy is no line feed, and neither is it in the source.
      have hnext : (maskData ks)[n + 1]? = some e := by
        rw [← List.head?_drop, ← List.drop_drop, hdrop]
        rfl
      have hlength : n + 1 < t.length := by
        rw [← length_maskData h]
        exact (List.getElem?_eq_some_iff.1 hnext).1
      refine ⟨t[n + 1], List.getElem?_eq_getElem hlength, ?_⟩
      intro hfeed
      have := (lineFeed_maskData_iff h (n + 1)).2 (by rw [List.getElem?_eq_getElem hlength, hfeed])
      rw [hnext] at this
      exact he (Option.some.inj this)
    · by_cases hfeed : c = lineFeed
      · subst hfeed
        rw [cover, if_pos (.inr rfl)] at hcover
        subst hcover
        have := (isSpaceIndented_cons hrefused (by decide)).2
        rw [endsLine_lineFeed] at this
        cases this
      · rw [cover, if_neg (not_or.2 ⟨hreturn, hfeed⟩)] at hcover
        subst hcover
        exact absurd (isSpaceIndented_cons hrefused (by decide)).1 (by decide)

/-! ## What is reported -/

/-- The error about the indentation of a line. -/
def indentationError (line : Nat) : Notice :=
  ⟨.error, "Used space to indentate instead of tab", some (line : Int)⟩

theorem indentationError_injective {line line' : Nat} (h : indentationError line = indentationError line') :
    line = line' := by
  injection h with _ _ hline
  exact Int.ofNat.inj (Option.some.inj hline)

/-- The check reports the first line of the copy that is refused, by the number of the line in the source. -/
theorem checkPhpIndentation_eq (ks : List Token) (t : Text) :
    checkPhpIndentation ks t = [] ∨
      ∃ n, FirstLine Text.isSpaceIndented (maskData ks) n ∧ checkPhpIndentation ks t = [indentationError (t.lineAt n)] := by
  rw [checkPhpIndentation, spaceIndentation?_eq_firstLine?]
  cases hfirst : firstLine? Text.isSpaceIndented (maskData ks) with
  | none => exact .inl rfl
  | some n => exact .inr ⟨n, (firstLine?_eq_some_iff _ _ _).1 hfirst, rfl⟩

/-- For any tokens that tile a source, the check reports nothing, or the line of a place at which a line of the source starts: it
is held by a token, and if that is data, a lone carriage return stands there. So data is not blamed for the indentation exactly
when the first line that is refused in the copy does not start with a carriage return of data. -/
theorem indentation_blames_code_iff (php : Tokenizer) (t : Text) :
    (checkPhpIndentation (php.tokens t) t = [] ∨
      ∃ n, ∃ k ∈ php.tokens t, Text.StartsLine t n ∧ k.Holds n ∧ (k.kind.isData = true → LoneReturnAt t n) ∧
        checkPhpIndentation (php.tokens t) t = [indentationError ((t.take n).count lineFeed + 1)]) ∧
      ((∀ line, indentationError line ∈ checkPhpIndentation (php.tokens t) t →
          ∀ n, Text.StartsLine t n → (t.take n).count lineFeed + 1 = line →
            ∀ k ∈ php.tokens t, k.Holds n → k.kind.isData = false) ↔
        ¬ ∃ n, FirstLine Text.isSpaceIndented (maskData (php.tokens t)) n ∧ t[n]? = some carriageReturn ∧
          ∃ k ∈ php.tokens t, k.Holds n ∧ k.kind.isData = true) := by
  have htiles := php.tiles t
  have hreported := checkPhpIndentation_eq (php.tokens t) t
  refine ⟨?_, ?_, ?_⟩
  · rcases hreported with hnone | ⟨n, hfirst, hcheck⟩
    · exact .inl hnone
    refine .inr ?_
    have hstart := (startsLine_maskData_iff htiles n).1 hfirst.1
    obtain ⟨k, hk, hholds⟩ := htiles.exists_holds (Nat.zero_le n) (by rw [Nat.zero_add]; exact hstart.lt_length)
    exact ⟨n, k, hk, hstart, hholds, loneReturnAt_of_data htiles hfirst.2.1 hk hholds, hcheck⟩
  · rintro hcode ⟨n, hfirst, -, k, hk, hholds, hdata⟩
    have hstart := (startsLine_maskData_iff htiles n).1 hfirst.1
    have hmem : indentationError (t.lineAt n) ∈ checkPhpIndentation (php.tokens t) t := by
      rw [checkPhpIndentation, spaceIndentation?_eq_firstLine?, (firstLine?_eq_some_iff _ _ _).2 hfirst]
      exact List.mem_singleton.2 rfl
    have := hcode _ hmem n hstart rfl k hk hholds
    rw [hdata] at this
    cases this
  · intro hnone line hmem n hstart hline k hk hholds
    rcases hreported with hcheck | ⟨m, hfirst, hcheck⟩
    · rw [hcheck] at hmem
      cases hmem
    · rw [hcheck, List.mem_singleton] at hmem
      have heq : n = m := hstart.eq_of_lineAt_eq ((startsLine_maskData_iff htiles m).1 hfirst.1)
        (hline.trans (indentationError_injective hmem))
      subst heq
      rw [← Bool.not_eq_true]
      intro hdata
      exact hnone ⟨n, hfirst, (loneReturnAt_of_data htiles hfirst.2.1 hk hholds hdata).1, k, hk, hholds, hdata⟩

/-- A literal that goes on behind a line feed and a carriage return. -/
def returnInLiteral : Text := "<?php 'a\n\x0db';"

/-- The line of a literal is blamed. -/
theorem literal_is_blamed :
    indentationError 2 ∈ checkPhpIndentation (Php.tokens returnInLiteral) returnInLiteral ∧
      Text.StartsLine returnInLiteral 9 ∧ (returnInLiteral.take 9).count lineFeed + 1 = 2 ∧
      ∃ k ∈ Php.tokens returnInLiteral, k.Holds 9 ∧ k.kind.isData = true := by
  have htokens : Php.tokens returnInLiteral =
      [⟨0, .tag, "<?php"⟩, ⟨5, .space, " "⟩, ⟨6, .singleQuoted, "'a\n\x0db'"⟩, ⟨12, .punctuation, ";"⟩] := by cbv
  have hreported : checkPhpIndentation (Php.tokens returnInLiteral) returnInLiteral = [indentationError 2] := by
    rw [htokens]
    decide +kernel
  refine ⟨by rw [hreported]; exact List.mem_cons_self, ⟨by decide, by decide⟩, by decide, ?_⟩
  rw [htokens]
  exact ⟨⟨6, .singleQuoted, "'a\n\x0db'"⟩, by decide, ⟨by decide, by decide⟩, rfl⟩

end SourceTidy.Task
