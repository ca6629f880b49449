import SourceTidy.Proofs.Php.ShortArrays

/-!
# Brackets in the place of array literals

What the edits of a source come to. Edits that follow each other are made as if they were made all at once
(`Between.spliced`), and each of those that write an opening bracket takes the word `array` with it, over trivia alone
(`OpensLiteral`).
-/

namespace SourceTidy.Php

/-! ## Edits made all at once -/

/-- `Spliced offset es t t'`: in `t`, a text that starts at an offset, the parts that the edits name are replaced all at once;
what stands before, between and after them is kept in order. -/
inductive Spliced : Nat → List Edit → Text → Text → Prop where
  | kept {offset : Nat} (t : Text) : Spliced offset [] t t
  | edit {offset : Nat} {e : Edit} {es : List Edit} {kept part rest rest' : Text}
      (hstart : e.start = offset + kept.length) (hstop : e.stop = e.start + part.length) (hpart : part ≠ [])
      (tail : Spliced e.stop es rest rest') :
      Spliced offset (e :: es) (kept ++ part ++ rest) (kept ++ e.replacement :: rest')

/-- The part of a text between two places, and what comes after it. -/
theorem take_drop_append_drop {low high : Nat} (h : low ≤ high) (t : Text) :
    (t.drop low).take (high - low) ++ t.drop high = t.drop low := by
  have hparts := List.take_append_drop (high - low) (t.drop low)
  rwa [List.drop_drop, Nat.add_sub_cancel' h] at hparts

/-- Edits that follow each other are made one by one, from the last to the first, as if they were made all at once. -/
theorem Between.spliced {low high : Nat} {es : List Edit} {t : Text} (h : Between low es high) (ht : high ≤ t.length) :
    Spliced low es (t.drop low) ((Edit.applyAll es t).drop low) := by
  induction h with
  | nil h => exact .kept _
  | @cons low high e es hlow hspan tail ih =>
    have hstop : e.stop ≤ t.length := Nat.le_trans tail.le ht
    obtain ⟨rest, hes, hcons⟩ := Edit.applyAll_cons (.cons hlow hspan tail) ht
    have hrest : (Edit.applyAll es t).drop e.stop = rest := by
      rw [hes, List.drop_left' (List.length_take_of_le hstop)]
    have hsource : t.drop low =
        (t.drop low).take (e.start - low) ++ (t.drop e.start).take (e.stop - e.start) ++ t.drop e.stop := by
      rw [List.append_assoc, take_drop_append_drop (Nat.le_of_lt hspan), take_drop_append_drop hlow]
    have hresult : (Edit.applyAll (e :: es) t).drop low =
        (t.drop low).take (e.start - low) ++ e.replacement :: rest := by
      have hlength : low ≤ (t.take e.start).length := by
        rw [List.length_take_of_le (by omega)]
        exact hlow
      rw [hcons, List.drop_append_of_le_length hlength, List.drop_take]
    have hkept : ((t.drop low).take (e.start - low)).length = e.start - low :=
      List.length_take_of_le (by rw [List.length_drop]; omega)
    have hpart : ((t.drop e.start).take (e.stop - e.start)).length = e.stop - e.start :=
      List.length_take_of_le (by rw [List.length_drop]; omega)
    rw [hsource, hresult]
    refine .edit ?_ ?_ (List.ne_nil_of_length_pos ?_) (hrest ▸ ih ht)
    · omega
    · omega
    · omega

/-! ## What an opening bracket stands for -/

/-- Some tokens of a source end with a keyword or name that is the word `array`, in letters of either case, and stands at an
offset, and with tokens after it that are trivia or have no text. -/
def EndsWithArray (ks : List Token) (offset : Nat) : Prop :=
  ∃ before word between, ks = before ++ word :: between ∧ word.offset = offset ∧
    (word.text.asciiLower = Text.ofString "array" ∧ (word.kind = .keyword ∨ word.kind.isName = true)) ∧
    ∀ k ∈ between, k.text ≠ [] → k.kind.isTrivia = true

/-- An edit goes from the start of a token that is the word `array` up to and with a parenthesis that opens a token of
punctuation; what lies between the two tokens is trivia. -/
def OpensLiteral (ks : List Token) (e : Edit) : Prop :=
  ∃ read mark rest, ks = read ++ mark :: rest ∧ EndsWithArray read e.start ∧ mark.kind = .punctuation ∧
    mark.text.head? = some ('(' : CodePoint) ∧ e.stop = mark.offset + 1

namespace ShortArrays

theorem pending_mark (s : State) (offset : Nat) (c : CodePoint) : (mark s offset c).2.pending = none := by
  by_cases hopen : c = '('
  · rw [hopen, mark_opening]
  · by_cases hclose : c = ')'
    · rw [hclose, mark_closing]
    · rw [mark_other s offset hopen hclose]

/-- The word `array` has a text and is no trivia. -/
theorem not_readOver_of_isArrayWord {k : Token} (hword : isArrayWord k = true) :
    ¬ (k.text.isEmpty || k.kind.isTrivia) = true := by
  simp only [isArrayWord, Bool.and_eq_true, Bool.or_eq_true, beq_iff_eq] at hword
  obtain ⟨htext, hkind⟩ := hword
  rw [Bool.or_eq_true, List.isEmpty_iff]
  rintro (hempty | htrivia)
  · rw [hempty] at htext
    cases htext
  · revert hkind htrivia
    cases k.kind <;> simp [TokenKind.isTrivia, TokenKind.isName]

/-- A mark opens an array when it is a parenthesis and the word `array` is pending. -/
theorem opening_mark {s : State} {offset : Nat} {c : CodePoint} {e : Edit} (he : e ∈ (mark s offset c).1)
    (hbracket : e.replacement = ('[' : CodePoint)) :
    c = '(' ∧ s.pending = some e.start ∧ e.stop = offset + 1 := by
  by_cases hopen : c = '('
  · rw [hopen, mark_opening] at he
    obtain ⟨start, hstart, rfl⟩ := List.mem_map.1 he
    exact ⟨hopen, Option.mem_toList.1 hstart, rfl⟩
  · by_cases hclose : c = ')'
    · rw [hclose, mark_closing] at he
      simp only at he
      split at he
      · rw [List.mem_singleton.1 he] at hbracket
        exact absurd hbracket closing_ne_opening
      · cases he
    · rw [mark_other s offset hopen hclose] at he
      cases he

theorem noneOpens_mark {s : State} (hs : s.pending = none) (offset : Nat) (c : CodePoint) :
    NoneOpens (mark s offset c).1 := by
  intro e he hopen
  obtain ⟨-, hpending, -⟩ := opening_mark he hopen
  rw [hs] at hpending
  cases hpending

/-- Only the first mark of a token can open an array. -/
theorem noneOpens_marks {s : State} (hs : s.pending = none) (offset : Nat) (t : Text) :
    NoneOpens (marks s offset t).1 ∧ (marks s offset t).2.pending = none := by
  induction t generalizing s offset with
  | nil => exact ⟨fun e he => absurd he List.not_mem_nil, hs⟩
  | cons c t ih =>
    obtain ⟨hnone, hpending⟩ := ih (pending_mark s offset c) (offset + 1)
    exact ⟨(noneOpens_append _ _).2 ⟨noneOpens_mark hs offset c, hnone⟩, hpending⟩

/-- A token opens an array when it is punctuation, a parenthesis comes first in it, and the word `array` is pending. -/
theorem opening_token {s : State} {k : Token} {e : Edit} (he : e ∈ (token s k).1)
    (hopen : e.replacement = ('[' : CodePoint)) :
    k.kind = .punctuation ∧ k.text.head? = some ('(' : CodePoint) ∧ s.pending = some e.start ∧
      e.stop = k.offset + 1 := by
  by_cases htrivia : (k.text.isEmpty || k.kind.isTrivia) = true
  · rw [token_of_trivia htrivia] at he
    cases he
  · rw [token_of_take htrivia] at he
    simp only [take] at he
    split at he
    · rename_i hkind
      cases htext : k.text with
      | nil => rw [htext] at he; cases he
      | cons c rest =>
        rw [htext, marks] at he
        rcases List.mem_append.1 he with he | he
        · obtain ⟨rfl, hpending, hstop⟩ := opening_mark he hopen
          exact ⟨hkind, rfl, hpending, hstop⟩
        · exact absurd hopen ((noneOpens_marks (pending_mark s k.offset c) _ rest).1 e he)
    · split at he <;> cases he

/-- After a token the word `array` is pending when the token is that word and names nothing, or is read over and the word was
pending. -/
theorem pending_token_iff (s : State) (k : Token) (start : Nat) :
    (token s k).2.pending = some start ↔ (k.text.isEmpty || k.kind.isTrivia) = true ∧ s.pending = some start ∨
      isArrayWord k = true ∧ s.previous ∉ namingWords ∧ k.offset = start := by
  by_cases htrivia : (k.text.isEmpty || k.kind.isTrivia) = true
  · rw [token_of_trivia htrivia, or_iff_left, and_iff_right htrivia]
    rintro ⟨hword, -, -⟩
    exact not_readOver_of_isArrayWord hword htrivia
  · rw [token_of_take htrivia, or_iff_right (fun h => htrivia h.1)]
    simp only [take]
    split
    · rename_i hkind
      refine iff_of_false (fun hpending => ?_) (fun hword => ?_)
      · rw [Bool.not_eq_true, Bool.or_eq_false_iff] at htrivia
        cases htext : k.text with
        | nil => rw [htext] at htrivia; cases htrivia.1
        | cons c rest =>
          have hnone := (noneOpens_marks (pending_mark s k.offset c) (k.offset + 1) rest).2
          rw [htext, marks] at hpending
          exact absurd (hnone.symm.trans hpending) (by simp)
      · have := hword.1
        simp [isArrayWord, hkind, TokenKind.isName] at this
    · have hguard : (isArrayWord k && !namingWords.contains s.previous) = true ↔
          isArrayWord k = true ∧ s.previous ∉ namingWords := by simp
      split
      · rename_i harray
        rw [hguard] at harray
        rw [Option.some.injEq, and_iff_right harray.1, and_iff_right harray.2]
      · rename_i harray
        rw [hguard] at harray
        exact iff_of_false (Option.some_ne_none start).symm fun h => harray ⟨h.1, h.2.1⟩

/-- A pending word is one that the tokens read so far end with. -/
theorem endsWithArray_token {read : List Token} {s : State} (hs : ∀ start, s.pending = some start → EndsWithArray read start)
    (k : Token) {start : Nat} (h : (token s k).2.pending = some start) : EndsWithArray (read ++ [k]) start := by
  rcases (pending_token_iff s k start).1 h with ⟨hk, hpending⟩ | ⟨hword, -, hoffset⟩
  · obtain ⟨before, word, between, rfl, hstart, hword, hbetween⟩ := hs start hpending
    refine ⟨before, word, between ++ [k], by simp, hstart, hword, ?_⟩
    rw [Bool.or_eq_true, List.isEmpty_iff] at hk
    exact List.forall_mem_append.2 ⟨hbetween, by simpa using hk.resolve_left⟩
  · simp only [isArrayWord, Bool.and_eq_true, Bool.or_eq_true, beq_iff_eq] at hword
    exact ⟨read, k, [], rfl, hoffset, hword, by simp⟩

/-- Every edit that writes an opening bracket opens a literal. -/
theorem opensLiteral_of_mem_editsFrom {read : List Token} {s : State}
    (hs : ∀ start, s.pending = some start → EndsWithArray read start) {ks : List Token} {e : Edit}
    (he : e ∈ editsFrom s ks) (hopen : e.replacement = ('[' : CodePoint)) : OpensLiteral (read ++ ks) e := by
  induction ks generalizing read s with
  | nil => cases he
  | cons k ks ih =>
    rw [editsFrom] at he
    rcases List.mem_append.1 he with he | he
    · obtain ⟨hkind, htext, hpending, hstop⟩ := opening_token he hopen
      exact ⟨read, k, ks, rfl, hs _ hpending, hkind, htext, hstop⟩
    · rw [List.append_cons]
      exact ih (fun start h => endsWithArray_token hs k h) he

end ShortArrays

end SourceTidy.Php
