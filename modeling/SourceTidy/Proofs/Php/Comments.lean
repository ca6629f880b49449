import SourceTidy.Proofs.Php.Literals

/-!
# Comments in edited sources

An edit takes away all that stands between the word `array` and its parenthesis. Tokens that no edit touches are kept, in their
order (`Spliced.inOrder`); comments and tags are touched where they stand in an array literal, and only there. So what is taken
away is never more than the word, blanks and the parenthesis exactly when no literal holds a comment or a tag
(`comments_survive_iff`).
-/

namespace SourceTidy.Php

/-! ## What is kept in order -/

/-- Texts that stand one behind the other in a text. -/
inductive InOrder : List Text → Text → Prop where
  | nil (t : Text) : InOrder [] t
  | cons {ts : List Text} {rest : Text} (front t : Text) (tail : InOrder ts rest) : InOrder (t :: ts) (front ++ t ++ rest)

theorem InOrder.mem {ts : List Text} {t : Text} (h : InOrder ts t) {s : Text} (hs : s ∈ ts) {c : CodePoint} (hc : c ∈ s) :
    c ∈ t := by
  induction h with
  | nil => cases hs
  | cons front t tail ih =>
    rcases List.mem_cons.1 hs with rfl | hs
    · exact List.mem_append_left _ (List.mem_append_right _ hc)
    · exact List.mem_append_right _ (ih hs)

/-- Of two ways to part a text, the one that parts it earlier parts the front of the other. -/
theorem exists_of_append_eq_append {front rest front' rest' : Text} (h : front ++ rest = front' ++ rest')
    (hle : front.length ≤ front'.length) : ∃ between, front' = front ++ between ∧ rest = between ++ rest' := by
  rcases List.append_eq_append_iff.1 h with hbetween | ⟨between, rfl, rfl⟩
  · exact hbetween
  · rw [List.length_append] at hle
    obtain rfl := List.eq_nil_of_length_eq_zero (Nat.le_zero.1 (Nat.le_of_add_le_add_left hle))
    exact ⟨[], by simp, rfl⟩

namespace Spliced

variable {offset : Nat} {es : List Edit} {t' : Text}

theorem start_lt_stop {t : Text} (h : Spliced offset es t t') : ∀ e ∈ es, e.start < e.stop := by
  induction h with
  | kept t => exact List.forall_mem_nil _
  | edit hstart hstop hpart tail ih =>
    refine List.forall_mem_cons.2 ⟨?_, ih⟩
    rw [hstop]
    exact Nat.lt_add_of_pos_right (List.length_pos_of_ne_nil hpart)

/-- A part of a text that no edit gets at is kept, and the edits behind it are made on their own. -/
theorem split {front part rest : Text} (h : Spliced offset es (front ++ part ++ rest) t')
    (hfree : ∀ e ∈ es, e.stop ≤ offset + front.length ∨ offset + front.length + part.length ≤ e.start) :
    ∃ front' rest' es', t' = front' ++ part ++ rest' ∧ (∀ e ∈ es', e ∈ es) ∧
      Spliced (offset + front.length + part.length) es' rest rest' := by
  generalize ht : front ++ part ++ rest = t at h
  induction h generalizing front with
  | kept t => exact ⟨front, rest, [], ht.symm, List.forall_mem_nil _, .kept rest⟩
  | @edit offset e es kept gone tail tail' hstart hstop hgone htail ih =>
    obtain ⟨he, hes⟩ := List.forall_mem_cons.1 hfree
    rcases he with hbefore | hbehind
    · -- The edit is made in front of the part, which stands in the text behind it.
      have hle : (kept ++ gone).length ≤ front.length := by
        rw [List.length_append]
        omega
      rw [List.append_assoc] at ht
      obtain ⟨between, rfl, rfl⟩ := exists_of_append_eq_append ht.symm hle
      have hoffset : e.stop + between.length = offset + (kept ++ gone ++ between).length := by
        simp only [List.length_append]
        omega
      rw [← hoffset] at hes ⊢
      obtain ⟨front', rest', es', rfl, hmem, hrest⟩ := ih hes (List.append_assoc _ _ _)
      exact ⟨kept ++ e.replacement :: front', rest', es', by simp, fun f hf => List.mem_cons_of_mem e (hmem f hf), hrest⟩
    · -- The edit is made behind the part, and so are all others.
      have hle : (front ++ part).length ≤ kept.length := by
        rw [List.length_append]
        omega
      rw [List.append_assoc kept] at ht
      obtain ⟨between, rfl, rfl⟩ := exists_of_append_eq_append ht hle
      refine ⟨front, between ++ e.replacement :: tail', e :: es, by simp, fun f hf => hf, ?_⟩
      rw [← List.append_assoc]
      refine .edit ?_ hstop hgone htail
      simp only [List.length_append] at hstart
      omega

/-- Tokens that no edit touches are kept, in their order. -/
theorem inOrder {front rest : Text} {ks : List Token} (hks : Tiles (offset + front.length) ks rest)
    (h : Spliced offset es (front ++ rest) t') {kept : List Token} (hkept : kept.Sublist ks)
    (hfree : ∀ k ∈ kept, ∀ e ∈ es, ¬ e.Touches k) : InOrder (kept.map (·.text)) t' := by
  generalize hplace : offset + front.length = place at hks
  induction hks generalizing offset front es t' kept with
  | nil =>
    rw [List.sublist_nil.1 hkept]
    exact .nil t'
  | @cons place k ks rest hk tail ih =>
    subst hplace
    rw [← List.append_assoc] at h
    have hnext : offset + (front ++ k.text).length = offset + front.length + k.text.length := by
      rw [List.length_append, Nat.add_assoc]
    cases hkept with
    | cons _ hkept => exact ih h hkept hfree hnext
    | @cons_cons kept _ _ hkept =>
      obtain ⟨hfirst, hfree⟩ := List.forall_mem_cons.1 hfree
      rw [List.map_cons]
      by_cases hempty : k.text = []
      · have := ih h hkept hfree hnext
        rw [hempty]
        exact this.cons [] []
      · have hapart : ∀ e ∈ es, e.stop ≤ offset + front.length ∨ offset + front.length + k.text.length ≤ e.start := by
          intro e he
          by_contra hnot
          rw [not_or, Nat.not_le, Nat.not_le] at hnot
          have hspan := h.start_lt_stop e he
          have hpos := List.length_pos_of_ne_nil hempty
          refine hfirst e he ⟨max e.start k.offset, Nat.le_max_left _ _, ?_, Nat.le_max_right _ _, ?_⟩
          · omega
          · omega
        obtain ⟨front', rest', es', rfl, hmem, hrest⟩ := h.split hapart
        refine .cons front' k.text ?_
        have hrest' : Spliced (offset + front.length + k.text.length) es' ([] ++ rest) rest' := hrest
        exact ih hrest' hkept (fun k' hk' e he => hfree k' hk' e (hmem e he)) rfl

end Spliced

/-! ## What is taken away -/

/-- The text that an edit takes away. -/
def Edit.removed (e : Edit) (t : Text) : Text := (t.drop e.start).take (e.stop - e.start)

/-- The word `array`, in letters of either case, blanks, and an opening parenthesis. -/
def IsArrayOpening (t : Text) : Prop :=
  ∃ word blanks : Text, t = word ++ blanks ++ [('(' : CodePoint)] ∧ word.asciiLower = Text.ofString "array" ∧
    ∀ c ∈ blanks, c.isBlank = true

/-- A token stands in an array literal, between the word and the parenthesis. -/
def InLiteral (ks : List Token) (k : Token) : Prop :=
  ∃ before word between mark after, ArrayLiteral ks before word between mark after ∧ k ∈ between

namespace ArrayLiteral

variable {ks before between after : List Token} {word mark : Token} {t : Text}

/-- The edit that opens an array takes away the word, what stands between it and the parenthesis, and that. -/
theorem removed_eq (h : ArrayLiteral ks before word between mark after) (hks : Tiles 0 ks t) :
    Edit.removed ⟨word.offset, mark.offset + 1, '['⟩ t = word.text ++ between.flatMap (·.text) ++ [('(' : CodePoint)] := by
  obtain ⟨rest, htext⟩ := List.head?_eq_some_iff.1 h.opening
  rw [h.source] at hks
  obtain ⟨front, _, rfl, -, hword⟩ := hks.of_append
  cases hword with
  | cons hoffset tail =>
    obtain ⟨middle, _, rfl, hmiddle, hmark⟩ := tail.of_append
    cases hmark with
    | @cons _ _ _ last hoffset' _ =>
      have hdrop : (front ++ (word.text ++ (middle ++ (mark.text ++ last)))).drop word.offset =
          (word.text ++ middle ++ [('(' : CodePoint)]) ++ (rest ++ last) := by
        rw [hoffset, Nat.zero_add, List.drop_left, htext]
        simp
      rw [← hmiddle.eq_flatMap, Edit.removed, hdrop]
      refine List.take_left' ?_
      simp only [List.length_append, List.length_singleton]
      omega

/-- What is taken away is the word, blanks and the parenthesis when nothing else stands between the two. -/
theorem isArrayOpening_removed_iff (h : ArrayLiteral ks before word between mark after) (hks : Tiles 0 ks t) :
    IsArrayOpening (Edit.removed ⟨word.offset, mark.offset + 1, '['⟩ t) ↔ ∀ k ∈ between, ∀ c ∈ k.text, c.isBlank = true := by
  rw [h.removed_eq hks]
  constructor
  · rintro ⟨word', blanks, heq, hword', hblanks⟩ k hk c hc
    have hlength := congrArg List.length (h.text_word.trans hword'.symm)
    rw [Text.asciiLower, Text.asciiLower, List.length_map, List.length_map] at hlength
    have hbetween : between.flatMap (·.text) = blanks := (List.append_inj (List.append_cancel_right heq) hlength).2
    exact hblanks c (hbetween ▸ List.mem_flatMap.2 ⟨k, hk, hc⟩)
  · intro hblanks
    refine ⟨word.text, _, rfl, h.text_word, fun c hc => ?_⟩
    obtain ⟨k, hk, hc⟩ := List.mem_flatMap.1 hc
    exact hblanks k hk c hc

end ArrayLiteral

/-- What is read over in a literal is blank, unless it is a comment or a tag. -/
theorem Fits.blank_iff {prior : List Token} {k : Token} (h : Fits prior k) (hk : k.isPassed = true) :
    (∀ c ∈ k.text, c.isBlank = true) ↔ k.kind.isRemark = false := by
  constructor
  · intro hblank
    rw [← Bool.not_eq_true]
    intro hremark
    obtain ⟨c, rest, htext, hc⟩ := h.remark hremark
    have := hblank c (htext ▸ List.mem_cons_self)
    rw [hc] at this
    cases this
  · intro hremark c hc
    rw [Token.isPassed, TokenKind.isTrivia_eq, hremark, Bool.or_false, Bool.or_eq_true, List.isEmpty_iff] at hk
    rcases hk with hempty | hspacing
    · rw [hempty] at hc
      cases hc
    · exact h.spacing hspacing c hc

/-! ## Comments -/

/-- The texts of the comments and tags of a source. -/
def remarks (ks : List Token) : List Text := (ks.filter (·.kind.isRemark)).map (·.text)

/-- An edit touches a comment or a tag in a literal only. -/
theorem inLiteral_of_touched {ks : List Token} {t : Text} (hks : Tiles 0 ks t) {e : Edit} (he : e ∈ ShortArrays.edits ks)
    {k : Token} (hk : k ∈ ks) (htouches : e.Touches k) (hremark : k.kind.isRemark = true) : InLiteral ks k := by
  rcases kind_of_touched hks he hk htouches with hkind | ⟨before, word, between, mark, after, h, rfl | hbetween⟩
  · rw [hkind] at hremark
    cases hremark
  · have htrivia : k.kind.isTrivia = true := by rw [TokenKind.isTrivia_eq, hremark, Bool.or_true]
    exact absurd (by rw [htrivia, Bool.or_true]) (ShortArrays.not_readOver_of_isArrayWord h.isArrayWord)
  · exact ⟨before, word, between, mark, after, h, hbetween⟩

/-- Comments and tags that stand in no array literal are kept, in their order. And what is taken away for an opening bracket is the
word, blanks and the parenthesis alone, and all comments and tags are kept in their order, exactly when none of them stands in
an array literal. -/
theorem comments_survive_iff (php : Lexer) (t : Text) :
    (∀ kept : List Token, kept.Sublist (php.tokens t) →
        (∀ k ∈ kept, k.kind.isRemark = true ∧ ¬ InLiteral (php.tokens t) k) →
        InOrder (kept.map (·.text)) (Task.fixArrays (php.tokens t) t).2) ∧
      ((∀ e ∈ ShortArrays.edits (php.tokens t), e.replacement = ('[' : CodePoint) → IsArrayOpening (e.removed t)) ∧
          InOrder (remarks (php.tokens t)) (Task.fixArrays (php.tokens t) t).2 ↔
        ¬ ∃ k, k.kind.isRemark = true ∧ InLiteral (php.tokens t) k) := by
  have htiles := php.tiles t
  have hspliced := (ShortArrays.edits_spec htiles).1.spliced (Nat.le_refl _)
  have hkeeps : ∀ kept : List Token, kept.Sublist (php.tokens t) →
      (∀ k ∈ kept, k.kind.isRemark = true ∧ ¬ InLiteral (php.tokens t) k) →
      InOrder (kept.map (·.text)) (Task.fixArrays (php.tokens t) t).2 := by
    intro kept hkept hfree
    refine Spliced.inOrder (show Tiles (0 + ([] : Text).length) _ t from htiles) hspliced hkept ?_
    intro k hk e he htouches
    exact (hfree k hk).2 (inLiteral_of_touched htiles he (hkept.subset hk) htouches (hfree k hk).1)
  refine ⟨hkeeps, ?_, ?_⟩
  · rintro ⟨hopening, -⟩ ⟨k, hremark, before, word, between, mark, after, h, hk⟩
    have he := (mem_edits_opening_iff _ _ _).2 ⟨before, word, between, mark, after, h, rfl, rfl⟩
    have hblank := (h.isArrayOpening_removed_iff htiles).1 (hopening _ he rfl) k hk
    obtain ⟨_, _, heq⟩ := List.append_of_mem (h.mem_of_mem_between hk)
    rw [(php.fits heq).blank_iff (h.passed k hk), hremark] at hblank
    cases hblank
  · intro hnone
    refine ⟨?_, hkeeps _ List.filter_sublist ?_⟩
    · rintro ⟨i, j, _⟩ he rfl
      obtain ⟨before, word, between, mark, after, h, rfl, rfl⟩ := (mem_edits_opening_iff _ _ _).1 he
      refine (h.isArrayOpening_removed_iff htiles).2 ?_
      intro k hk
      obtain ⟨_, _, heq⟩ := List.append_of_mem (h.mem_of_mem_between hk)
      rw [(php.fits heq).blank_iff (h.passed k hk), ← Bool.not_eq_true]
      exact fun hremark => hnone ⟨k, hremark, before, word, between, mark, after, h, hk⟩
    · intro k hk
      have hremark := (List.mem_filter.1 hk).2
      exact ⟨hremark, fun hin => hnone ⟨k, hremark, hin⟩⟩

/-- A comment between the word `array` and its parenthesis. -/
def commentInArray : Text := "<?php array/*c*/();"

/-- It is taken away, and stands nowhere in the answer. -/
theorem comment_in_array_is_lost :
    ⟨11, .blockComment, "/*c*/"⟩ ∈ tokens commentInArray ∧
      ShortArrays.edits (tokens commentInArray) = [⟨6, 17, '['⟩, ⟨17, 18, ']'⟩] ∧
      ¬ IsArrayOpening (Edit.removed ⟨6, 17, '['⟩ commentInArray) ∧
      Task.fixArrays (tokens commentInArray) commentInArray =
        ([⟨.fix, "uses old array() syntax", some 1⟩], Text.ofString "<?php [];") ∧
      ¬ InOrder (remarks (tokens commentInArray)) (Task.fixArrays (tokens commentInArray) commentInArray).2 := by
  have htokens : tokens commentInArray = [⟨0, .tag, "<?php"⟩, ⟨5, .space, " "⟩, ⟨6, .keyword, "array"⟩,
      ⟨11, .blockComment, "/*c*/"⟩, ⟨16, .punctuation, "();"⟩] := by cbv
  have hedits : ShortArrays.edits (tokens commentInArray) = [⟨6, 17, '['⟩, ⟨17, 18, ']'⟩] := by
    rw [ShortArrays.edits_eq_editsFrom (tiles_tokens commentInArray), htokens]
    decide +kernel
  have hanswer : Task.fixArrays (tokens commentInArray) commentInArray =
      ([⟨.fix, "uses old array() syntax", some 1⟩], Text.ofString "<?php [];") := by
    rw [Task.fixArrays, hedits]
    decide +kernel
  have hliteral : ArrayLiteral (tokens commentInArray) [⟨0, .tag, "<?php"⟩, ⟨5, .space, " "⟩] ⟨6, .keyword, "array"⟩
      [⟨11, .blockComment, "/*c*/"⟩] ⟨16, .punctuation, "();"⟩ [] := by
    rw [htokens]
    exact ⟨rfl, by decide, by decide, by decide, rfl, rfl⟩
  refine ⟨by rw [htokens]; decide, hedits, ?_, hanswer, ?_⟩
  · intro hopening
    have hslash := (hliteral.isArrayOpening_removed_iff (tiles_tokens commentInArray)).1 hopening _ List.mem_cons_self '/'
    exact absurd (hslash (by decide)) (by decide)
  · intro h
    rw [hanswer] at h
    have hstar : ('*' : CodePoint) ∈ Text.ofString "<?php [];" := by
      refine h.mem (s := "/*c*/") ?_ (by decide)
      rw [htokens]
      decide
    exact absurd hstar (by decide)

end SourceTidy.Php
