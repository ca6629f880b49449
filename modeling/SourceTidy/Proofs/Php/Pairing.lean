import Mathlib
import SourceTidy.Proofs.Php.Brackets
import SourceTidy.Proofs.Php.Parentheses

/-!
# Which parentheses become brackets

While the tokens of a source are read, the stack of the reader is that of the open parentheses, and it tells of each whether an
opening bracket is written for it (`Tracks`). So the edits that write a closing bracket stand for the parentheses that close
those, and for no others, and the answer is the one that was to be given (`fixArrays_writes_short`). Nothing makes sure,
though, that what is opened is closed: there are as many closing brackets as opening ones exactly when every parenthesis that
becomes one is closed in the source (`brackets_match_iff`).
-/

namespace SourceTidy.Php

/-- Some edits write an opening bracket for the parenthesis at an offset. -/
def OpensAt (es : List Edit) (i : Nat) : Prop := ∃ e ∈ es, e.replacement = ('[' : CodePoint) ∧ e.stop = i + 1

instance (es : List Edit) (i : Nat) : Decidable (OpensAt es i) :=
  inferInstanceAs (Decidable (∃ e ∈ es, e.replacement = ('[' : CodePoint) ∧ e.stop = i + 1))

theorem opensAt_append_iff (es es' : List Edit) (i : Nat) : OpensAt (es ++ es') i ↔ OpensAt es i ∨ OpensAt es' i := by
  simp only [OpensAt, List.mem_append, or_and_right, exists_or]

theorem not_opensAt_nil (i : Nat) : ¬ OpensAt [] i := by
  rintro ⟨e, he, -⟩
  cases he

/-- How many of some edits write an opening bracket. -/
def openings (es : List Edit) : Nat := es.countP fun e => e.replacement = ('[' : CodePoint)

/-- How many of some edits write a closing bracket. -/
def closings (es : List Edit) : Nat := es.countP fun e => e.replacement = (']' : CodePoint)

@[simp] theorem openings_append (es es' : List Edit) : openings (es ++ es') = openings es + openings es' :=
  List.countP_append

@[simp] theorem closings_append (es es' : List Edit) : closings (es ++ es') = closings es + closings es' :=
  List.countP_append

namespace ShortArrays

/-! ## The stack of the reader -/

/-- What holds when the parentheses `ps` of a source have been read, all of them before an offset, and the edits `es` found:
the reader knows of each parenthesis that is open whether a bracket is written for it, and has written a bracket for each one
that closes such a parenthesis, and for no others. -/
structure Tracks (offset : Nat) (ps : List Parenthesis) (es : List Edit) (s : State) : Prop where
  ascending : Ascending ps
  behind : ∀ p ∈ ps, p.offset < offset
  opened : s.opened = (unclosed ps).map fun i => decide (OpensAt es i)
  opening : ∀ i, OpensAt es i → ⟨i, true⟩ ∈ ps
  closing : ∀ e ∈ es, e.replacement = (']' : CodePoint) →
    e.stop = e.start + 1 ∧ ∃ i, OpensAt es i ∧ Closes ps i e.start
  closed : ∀ i j, OpensAt es i → Closes ps i j → ⟨j, j + 1, ']'⟩ ∈ es
  count : openings es = closings es + s.opened.count true

namespace Tracks

variable {offset : Nat} {ps : List Parenthesis} {es : List Edit} {s s' : State}

theorem start : Tracks 0 [] [] {} where
  ascending := .nil
  behind _ hp := absurd hp List.not_mem_nil
  opened := rfl
  opening i hi := absurd hi (not_opensAt_nil i)
  closing _ he := absurd he List.not_mem_nil
  closed i _ hi := absurd hi (not_opensAt_nil i)
  count := rfl

/-- What is no parenthesis is read over. -/
theorem skip (h : Tracks offset ps es s) {offset' : Nat} (hle : offset ≤ offset') (hs : s'.opened = s.opened) :
    Tracks offset' ps es s' :=
  { h with
    behind := fun p hp => Nat.lt_of_lt_of_le (h.behind p hp) hle
    opened := hs.trans h.opened
    count := by rw [hs, h.count] }

/-- One more parenthesis stands behind the others. -/
theorem ascending_concat (h : Tracks offset ps es s) (isOpening : Bool) :
    Ascending (ps ++ [⟨offset, isOpening⟩]) ∧ ∀ p ∈ ps ++ [⟨offset, isOpening⟩], p.offset < offset + 1 := by
  refine ⟨(ascending_concat_iff _ _).2 ⟨h.ascending, h.behind⟩, fun p hp => ?_⟩
  rcases List.mem_append.1 hp with hp | hp
  · exact Nat.lt_succ_of_lt (h.behind p hp)
  · rw [List.mem_singleton.1 hp]
    exact Nat.lt_succ_self offset

/-- The reader's stack says of the innermost open parenthesis whether a bracket is written for it. -/
theorem head?_opened_iff (h : Tracks offset ps es s) :
    s.opened.head? = some true ↔ ∃ i, (unclosed ps).head? = some i ∧ OpensAt es i := by
  rw [h.opened, List.head?_map, Option.map_eq_some_iff]
  simp only [decide_eq_true_eq]

/-- An opening parenthesis goes on the stack, with the bracket that is written for it if it opens an array. -/
theorem push (h : Tracks offset ps es s) (isArray : Bool) {made : List Edit}
    (hmade : ∀ i, OpensAt made i ↔ isArray = true ∧ i = offset) (hnone : ∀ e ∈ made, e.replacement ≠ (']' : CodePoint))
    (hcount : openings made = if isArray then 1 else 0) (hs : s'.opened = isArray :: s.opened) :
    Tracks (offset + 1) (ps ++ [⟨offset, true⟩]) (es ++ made) s' := by
  obtain ⟨hascending, hbehind⟩ := h.ascending_concat true
  -- What is written for the new parenthesis changes nothing for those before it.
  have hold {i : Nat} (hi : ⟨i, true⟩ ∈ ps) : OpensAt (es ++ made) i ↔ OpensAt es i := by
    rw [opensAt_append_iff, hmade, or_iff_left]
    rintro ⟨-, rfl⟩
    exact Nat.lt_irrefl i (h.behind _ hi)
  have hnew : OpensAt (es ++ made) offset ↔ isArray = true := by
    rw [opensAt_append_iff, hmade, or_iff_right, and_iff_left rfl]
    exact fun hopen => Nat.lt_irrefl offset (h.behind _ (h.opening offset hopen))
  exact {
    ascending := hascending
    behind := hbehind
    opened := by
      have hbelow : ((unclosed ps).map fun i => decide (OpensAt (es ++ made) i)) = s.opened := by
        rw [h.opened]
        exact List.map_congr_left fun i hi => decide_eq_decide.2 (hold (mem_of_mem_unclosed hi))
      have htop : decide (OpensAt (es ++ made) offset) = isArray := by
        rw [Bool.eq_iff_iff, decide_eq_true_iff, hnew]
      rw [unclosed_concat_opening, List.map_cons, htop, hbelow, hs]
    opening := fun i hi => by
      rcases (opensAt_append_iff _ _ _).1 hi with hi | hi
      · exact List.mem_append_left _ (h.opening i hi)
      · obtain ⟨-, rfl⟩ := (hmade i).1 hi
        exact List.mem_append_right _ List.mem_cons_self
    closing := fun e he hclose => by
      rcases List.mem_append.1 he with he | he
      · obtain ⟨hstop, i, hi, hij⟩ := h.closing e he hclose
        exact ⟨hstop, i, (opensAt_append_iff _ _ _).2 (.inl hi), (closes_concat_opening_iff _ _ _ _).2 hij⟩
      · exact absurd hclose (hnone e he)
    closed := fun i j hi hij => by
      rw [closes_concat_opening_iff] at hij
      exact List.mem_append_left _ (h.closed i j ((hold hij.mem_opening).1 hi) hij)
    count := by
      have hno : closings made = 0 := List.countP_eq_zero.2 fun e he => by simpa using hnone e he
      rw [openings_append, closings_append, hno, hcount, hs, List.count_cons, h.count]
      cases isArray with
      | true => simp only [if_true, beq_self_eq_true]; omega
      | false => simp }

/-- A closing parenthesis takes the top of the stack away, and becomes a bracket if one is written for that. -/
theorem pop (h : Tracks offset ps es s) {made : List Edit}
    (hmade : made = if s.opened.head? = some true then [⟨offset, offset + 1, ']'⟩] else [])
    (hs : s'.opened = s.opened.tail) : Tracks (offset + 1) (ps ++ [⟨offset, false⟩]) (es ++ made) s' := by
  obtain ⟨hascending, hbehind⟩ := h.ascending_concat false
  have hmem (e : Edit) : e ∈ made ↔ s.opened.head? = some true ∧ e = ⟨offset, offset + 1, ']'⟩ := by
    rw [hmade]
    split <;> simp [*]
  have hsame (i : Nat) : OpensAt (es ++ made) i ↔ OpensAt es i := by
    rw [opensAt_append_iff, or_iff_left]
    rintro ⟨e, he, hopen, -⟩
    obtain ⟨-, rfl⟩ := (hmem e).1 he
    exact closing_ne_opening hopen
  exact {
    ascending := hascending
    behind := hbehind
    opened := by
      simp only [hsame]
      rw [unclosed_concat_closing, hs, h.opened, List.map_tail]
    opening := fun i hi => List.mem_append_left _ (h.opening i ((hsame i).1 hi))
    closing := fun e he hclose => by
      simp only [hsame, closes_concat_closing_iff]
      rcases List.mem_append.1 he with he | he
      · obtain ⟨hstop, i, hi, hij⟩ := h.closing e he hclose
        exact ⟨hstop, i, hi, .inl hij⟩
      · obtain ⟨htrue, rfl⟩ := (hmem e).1 he
        obtain ⟨i, htop, hi⟩ := h.head?_opened_iff.1 htrue
        exact ⟨rfl, i, hi, .inr ⟨rfl, htop⟩⟩
    closed := fun i j hi hij => by
      rw [hsame] at hi
      rcases (closes_concat_closing_iff _ _ _ _).1 hij with hij | ⟨rfl, htop⟩
      · exact List.mem_append_left _ (h.closed i j hi hij)
      · exact List.mem_append_right _ ((hmem _).2 ⟨h.head?_opened_iff.2 ⟨i, htop, hi⟩, rfl⟩)
    count := by
      rw [openings_append, closings_append, hmade, hs, h.count]
      cases s.opened with
      | nil => simp [openings, closings]
      | cons isArray below =>
        cases isArray with
        | true => simp [openings, closings, closing_ne_opening, Nat.add_assoc, Nat.add_comm 1]
        | false => simp [openings, closings] }

/-- One mark of punctuation. -/
theorem mark (h : Tracks offset ps es s) (c : CodePoint) :
    Tracks (offset + 1) (ps ++ (Parenthesis.ofMark? offset c).toList) (es ++ (ShortArrays.mark s offset c).1)
      (ShortArrays.mark s offset c).2 := by
  unfold Parenthesis.ofMark?
  by_cases hopen : c = '('
  · subst hopen
    rw [mark_opening, if_pos rfl]
    cases hpending : s.pending with
    | none => exact h.push false (fun i => by simp [not_opensAt_nil]) (by simp) rfl rfl
    | some start =>
      refine h.push true (fun i => ?_) (fun e he => ?_) rfl rfl
      · simp [OpensAt, eq_comm]
      · rw [List.mem_singleton.1 he]
        exact closing_ne_opening.symm
  · by_cases hclose : c = ')'
    · subst hclose
      rw [mark_closing, if_neg (by decide), if_pos rfl]
      exact h.pop rfl rfl
    · rw [mark_other s offset hopen hclose, if_neg hopen, if_neg hclose]
      simp only [Option.toList_none, List.append_nil]
      exact h.skip (Nat.le_succ offset) rfl

/-- The marks of a token of punctuation. -/
theorem marks (h : Tracks offset ps es s) (t : Text) :
    Tracks (offset + t.length) (ps ++ Parenthesis.inText offset t) (es ++ (ShortArrays.marks s offset t).1)
      (ShortArrays.marks s offset t).2 := by
  induction t generalizing offset ps es s with
  | nil => simpa [Parenthesis.inText, ShortArrays.marks] using h
  | cons c t ih =>
    have hrest := ih (h.mark c)
    rw [List.append_assoc, List.append_assoc] at hrest
    rw [List.length_cons, Nat.add_comm t.length 1, ← Nat.add_assoc]
    exact hrest

/-- One token. -/
theorem token (h : Tracks offset ps es s) {k : Token} (hk : k.offset = offset) :
    Tracks (offset + k.text.length) (ps ++ Parenthesis.inToken k) (es ++ (ShortArrays.token s k).1)
      (ShortArrays.token s k).2 := by
  unfold Parenthesis.inToken
  by_cases htrivia : (k.text.isEmpty || k.kind.isTrivia) = true
  · have hnone : (if k.kind = .punctuation then Parenthesis.inText k.offset k.text else []) = [] := by
      rw [Bool.or_eq_true, List.isEmpty_iff] at htrivia
      rcases htrivia with htext | hkind
      · rw [htext, Parenthesis.inText, ite_self]
      · refine if_neg fun hpunctuation => ?_
        rw [hpunctuation] at hkind
        cases hkind
    rw [hnone, token_of_trivia htrivia, List.append_nil, List.append_nil]
    exact h.skip (Nat.le_add_right _ _) rfl
  · rw [token_of_take htrivia]
    unfold take
    by_cases hkind : k.kind = .punctuation
    · rw [if_pos hkind, if_pos hkind, hk]
      exact (h.marks k.text).skip (Nat.le_refl _) rfl
    · rw [if_neg hkind, if_neg hkind, List.append_nil]
      split
      · rw [List.append_nil]
        exact h.skip (Nat.le_add_right _ _) rfl
      · rw [List.append_nil]
        exact h.skip (Nat.le_add_right _ _) rfl

/-- The tokens that are left. -/
theorem editsFrom {ks : List Token} {t : Text} (hks : Tiles offset ks t) (h : Tracks offset ps es s) :
    ∃ offset' s', Tracks offset' (ps ++ Parenthesis.inTokens ks) (es ++ ShortArrays.editsFrom s ks) s' := by
  induction hks generalizing ps es s with
  | nil offset => exact ⟨offset, s, by simpa [Parenthesis.inTokens, ShortArrays.editsFrom] using h⟩
  | @cons offset k ks t hk tail ih =>
    have hrest := ih (h.token hk)
    rw [List.append_assoc, List.append_assoc] at hrest
    exact hrest

end Tracks

/-- The edits of a source that is tiled write a bracket for each parenthesis that closes one for which they write a bracket,
and for no others. -/
theorem tracks_edits {ks : List Token} {t : Text} (h : Tiles 0 ks t) :
    ∃ offset s, Tracks offset (Parenthesis.inTokens ks) (edits ks) s := by
  rw [edits_eq_editsFrom h]
  exact Tracks.start.editsFrom h

theorem opensLiteral_of_mem_edits {ks : List Token} {e : Edit} (he : e ∈ edits ks)
    (hopen : e.replacement = ('[' : CodePoint)) : OpensLiteral ks e := by
  have hstart (start : Nat) (h : ({} : State).pending = some start) : EndsWithArray [] start := by cases h
  exact opensLiteral_of_mem_editsFrom hstart (List.mem_mergeSort.1 he) hopen

end ShortArrays

/-! ## The answer -/

/-- What is to be answered for a source in which array literals are written with brackets, with the edits that this takes. -/
structure WritesShort (ks : List Token) (t : Text) (es : List Edit) (answer : List Task.Notice × Text) : Prop where
  /-- The edits lie in the source, one behind the other. -/
  between : Between 0 es t.length
  /-- All of them are made at once, and the rest is kept. -/
  spliced : Spliced 0 es t answer.2
  /-- An edit writes an opening or a closing bracket. -/
  bracket : ∀ e ∈ es, e.replacement = ('[' : CodePoint) ∨ e.replacement = (']' : CodePoint)
  /-- An opening bracket stands for the word `array`, trivia, and an opening parenthesis. -/
  opening : ∀ e ∈ es, e.replacement = ('[' : CodePoint) → OpensLiteral ks e
  /-- A closing bracket stands for a parenthesis that closes one for which an opening bracket stands. -/
  closing : ∀ e ∈ es, e.replacement = (']' : CodePoint) →
    e.stop = e.start + 1 ∧ t[e.start]? = some (')' : CodePoint) ∧
      ∃ i, OpensAt es i ∧ Closes (Parenthesis.inTokens ks) i e.start
  /-- It does so for every parenthesis that closes such a one. -/
  closed : ∀ i j, OpensAt es i → Closes (Parenthesis.inTokens ks) i j → ⟨j, j + 1, ']'⟩ ∈ es
  /-- Each opening bracket is reported as a fix, in the order of the source, on the line of its word. -/
  notices : answer.1 = (es.filter fun e => e.replacement = ('[' : CodePoint)).map fun e =>
    ⟨.fix, "uses old array() syntax", some (((t.take e.start).count Text.lineFeed + 1 : Nat) : Int)⟩
  /-- Without edits nothing is changed and nothing reported. -/
  idle : es = [] → answer = ([], t)

/-- What an edit writes, and where a closing bracket stands. -/
theorem Replaces.bracket {t : Text} {e : Edit} (h : Replaces t e) :
    e.replacement = ('[' : CodePoint) ∨ e.replacement = (']' : CodePoint) ∧ t[e.start]? = some (')' : CodePoint) := by
  cases h with
  | opening => exact .inl rfl
  | @closing before rest ht =>
    refine .inr ⟨rfl, ?_⟩
    rw [ht, List.getElem?_append_right (Nat.le_refl _), Nat.sub_self]
    rfl

theorem filterMap_shortArrayNotice (t : Text) (es : List Edit) :
    es.filterMap (Task.shortArrayNotice t) = (es.filter fun e => e.replacement = ('[' : CodePoint)).map fun e =>
      .at .fix "uses old array() syntax" t e.start := by
  induction es with
  | nil => rfl
  | cons e es ih =>
    by_cases h : e.replacement = ('[' : CodePoint)
    · rw [List.filterMap_cons, Task.shortArrayNotice, if_pos h, List.filter_cons_of_pos (by simpa using h), List.map_cons,
        ih]
    · rw [List.filterMap_cons, Task.shortArrayNotice, if_neg h, List.filter_cons_of_neg (by simpa using h), ih]

/-- For any tokens that tile a source, the edits that are found and the answer are as they are to be. -/
theorem fixArrays_writes_short {ks : List Token} {t : Text} (h : Tiles 0 ks t) :
    WritesShort ks t (ShortArrays.edits ks) (Task.fixArrays ks t) := by
  obtain ⟨hbetween, hreplaces⟩ := ShortArrays.edits_spec h
  obtain ⟨offset, s, htracks⟩ := ShortArrays.tracks_edits h
  exact {
    between := hbetween
    spliced := hbetween.spliced (Nat.le_refl _)
    bracket := fun e he => (hreplaces e he).bracket.imp_right And.left
    opening := fun e he hopen => ShortArrays.opensLiteral_of_mem_edits he hopen
    closing := fun e he hclose => by
      obtain ⟨hstop, hi⟩ := htracks.closing e he hclose
      rcases (hreplaces e he).bracket with hopen | ⟨-, hmark⟩
      · exact absurd (hclose.symm.trans hopen) ShortArrays.closing_ne_opening
      · exact ⟨hstop, hmark, hi⟩
    closed := htracks.closed
    notices := filterMap_shortArrayNotice t _
    idle := fun hnil => by
      rw [Task.fixArrays, hnil]
      rfl }

namespace PairingWitness

/-- An array in an array, with a comment before its parenthesis and a call between the two. -/
def nested : Text := "<?php\nArray /*(*/ (f(array()))"

theorem edits_nested :
    ShortArrays.edits (tokens nested) = [⟨6, 19, '['⟩, ⟨21, 27, '['⟩, ⟨27, 28, ']'⟩, ⟨29, 30, ']'⟩] := by
  have htokens : tokens nested =
      [⟨0, .tag, "<?php"⟩, ⟨5, .space, "\n"⟩, ⟨6, .keyword, "Array"⟩, ⟨11, .space, " "⟩, ⟨12, .blockComment, "/*(*/"⟩,
        ⟨17, .space, " "⟩, ⟨18, .punctuation, "("⟩, ⟨19, .name, "f"⟩, ⟨20, .punctuation, "("⟩, ⟨21, .keyword, "array"⟩,
        ⟨26, .punctuation, "()))"⟩] := by cbv
  rw [ShortArrays.edits_eq_editsFrom (tiles_tokens nested), htokens]
  decide +kernel

/-- An array that is not closed. -/
def halfLiteral : Text := "<?php array("

theorem edits_halfLiteral : ShortArrays.edits (tokens halfLiteral) = [⟨6, 12, '['⟩] := by
  have htokens : tokens halfLiteral =
      [⟨0, .tag, "<?php"⟩, ⟨5, .space, " "⟩, ⟨6, .keyword, "array"⟩, ⟨11, .punctuation, "("⟩] := by cbv
  rw [ShortArrays.edits_eq_editsFrom (tiles_tokens halfLiteral), htokens]
  decide +kernel

end PairingWitness

open PairingWitness in
/-- Both arrays are written with brackets, and the parentheses of the call stay. -/
theorem fixArrays_nested :
    Tiles 0 (tokens nested) nested ∧
      WritesShort (tokens nested) nested [⟨6, 19, '['⟩, ⟨21, 27, '['⟩, ⟨27, 28, ']'⟩, ⟨29, 30, ']'⟩]
        ([⟨.fix, "uses old array() syntax", some 2⟩, ⟨.fix, "uses old array() syntax", some 2⟩],
          "<?php\n[f([])]") := by
  have htiles : Tiles 0 (tokens nested) nested := tiles_tokens nested
  have hanswer : Task.fixArrays (tokens nested) nested =
      ([⟨.fix, "uses old array() syntax", some 2⟩, ⟨.fix, "uses old array() syntax", some 2⟩],
        Text.ofString "<?php\n[f([])]") := by
    rw [Task.fixArrays, edits_nested]
    decide +kernel
  refine ⟨htiles, ?_⟩
  rw [← hanswer, ← edits_nested]
  exact fixArrays_writes_short htiles

/-! ## As many brackets of either kind -/

/-- There are never more closing than opening brackets, and as many of them exactly when every parenthesis that becomes an
opening bracket is closed in the source. -/
theorem brackets_match_iff (php : Tokenizer) (t : Text) :
    closings (ShortArrays.edits (php.tokens t)) ≤ openings (ShortArrays.edits (php.tokens t)) ∧
      (openings (ShortArrays.edits (php.tokens t)) = closings (ShortArrays.edits (php.tokens t)) ↔
        ∀ i, OpensAt (ShortArrays.edits (php.tokens t)) i → ∃ j, Closes (Parenthesis.inTokens (php.tokens t)) i j) := by
  obtain ⟨offset, s, h⟩ := ShortArrays.tracks_edits (php.tiles t)
  have hcount := h.count
  refine ⟨by omega, ?_⟩
  have hnone : openings (ShortArrays.edits (php.tokens t)) = closings (ShortArrays.edits (php.tokens t)) ↔
      true ∉ s.opened := by
    rw [← List.count_eq_zero]
    omega
  rw [hnone, h.opened]
  simp only [List.mem_map, decide_eq_true_eq, not_exists, not_and]
  constructor
  · intro hno i hi
    rcases unclosed_or_closes (h.opening i hi) with hopen | hcloses
    · exact absurd hi (hno i hopen)
    · exact hcloses
  · intro hall i hopen hi
    obtain ⟨j, hj⟩ := hall i hi
    exact not_closes_of_mem_unclosed h.ascending hopen hj

open PairingWitness in
/-- An array that is not closed is opened with a bracket all the same. -/
theorem unclosed_array_is_opened :
    openings (ShortArrays.edits (tokens halfLiteral)) = 1 ∧ closings (ShortArrays.edits (tokens halfLiteral)) = 0 ∧
      Task.fixArrays (tokens halfLiteral) halfLiteral =
        ([⟨.fix, "uses old array() syntax", some 1⟩], Text.ofString "<?php [") := by
  rw [Task.fixArrays, edits_halfLiteral]
  decide +kernel

end SourceTidy.Php
