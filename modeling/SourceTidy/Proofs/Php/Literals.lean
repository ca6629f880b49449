import SourceTidy.Proofs.Php.Lexemes
import SourceTidy.Proofs.Php.Pairing

/-!
# Which arrays are written with brackets

An array literal is the word `array`, unless the word before it says that it is a name, and a parenthesis that comes next
(`ArrayLiteral`). An opening bracket is written for each of these and for nothing else (`mem_edits_opening_iff`), so the edits
touch nothing but literals, up to their parentheses, and marks of punctuation (`kind_of_touched`).
-/

namespace SourceTidy.Php

/-- `ArrayLiteral ks before word between mark after`: among the tokens of a source stands the word `array`, with no word directly
before it that makes it a name, and the next token that is not read over is punctuation and starts with a parenthesis. -/
structure ArrayLiteral (ks before : List Token) (word : Token) (between : List Token) (mark : Token)
    (after : List Token) : Prop where
  source : ks = before ++ word :: (between ++ mark :: after)
  isArrayWord : ShortArrays.isArrayWord word = true
  free : (codeWords before).getLastD [] ∉ ShortArrays.namingWords
  passed : ∀ k ∈ between, k.isPassed = true
  punctuation : mark.kind = .punctuation
  opening : mark.text.head? = some ('(' : CodePoint)

namespace ArrayLiteral

variable {ks before between after : List Token} {word mark : Token}

theorem mem_of_mem_between (h : ArrayLiteral ks before word between mark after) {k : Token} (hk : k ∈ between) : k ∈ ks := by
  rw [h.source]
  exact List.mem_append_right _ (List.mem_cons_of_mem _ (List.mem_append_left _ hk))

theorem text_word (h : ArrayLiteral ks before word between mark after) : word.text.asciiLower = Text.ofString "array" := by
  have hword := h.isArrayWord
  rw [ShortArrays.isArrayWord, Bool.and_eq_true, beq_iff_eq] at hword
  exact hword.1

end ArrayLiteral

namespace ShortArrays

/-! ## The state of the reader -/

/-- The state after some tokens. -/
def stateAfter (ks : List Token) : State := ks.foldl (fun s k => (token s k).2) {}

@[simp] theorem stateAfter_concat (ks : List Token) (k : Token) :
    stateAfter (ks ++ [k]) = (token (stateAfter ks) k).2 := by
  rw [stateAfter, List.foldl_append]
  rfl

/-- Every edit is made by one token, in the state after those before it. -/
theorem mem_editsFrom_iff (read ks : List Token) (e : Edit) :
    e ∈ editsFrom (stateAfter read) ks ↔
      ∃ front k rest, ks = front ++ k :: rest ∧ e ∈ (token (stateAfter (read ++ front)) k).1 := by
  induction ks generalizing read with
  | nil => simp [editsFrom]
  | cons k ks ih =>
    rw [editsFrom, List.mem_append, ← stateAfter_concat, ih]
    constructor
    · rintro (he | ⟨front, k', rest, rfl, he⟩)
      · exact ⟨[], k, ks, rfl, by rwa [List.append_nil]⟩
      · exact ⟨k :: front, k', rest, rfl, by rwa [List.append_cons]⟩
    · rintro ⟨front, k', rest, heq, he⟩
      rcases List.cons_eq_append_iff.1 heq with ⟨rfl, hcons⟩ | ⟨front, rfl, rfl⟩
      · obtain ⟨rfl, rfl⟩ := List.cons.inj hcons
        exact .inl (by rwa [List.append_nil] at he)
      · exact .inr ⟨front, k', rest, rfl, by rwa [← List.append_cons]⟩

theorem mem_edits_iff (ks : List Token) (e : Edit) :
    e ∈ edits ks ↔ ∃ read k rest, ks = read ++ k :: rest ∧ e ∈ (token (stateAfter read) k).1 := by
  rw [edits, List.mem_mergeSort]
  exact mem_editsFrom_iff [] ks e

theorem previous_token (s : State) (k : Token) :
    (token s k).2.previous = if k.isPassed then s.previous else k.text.asciiLower := by
  by_cases hk : k.isPassed = true
  · rw [if_pos hk, token_of_trivia hk]
  · rw [if_neg hk, token_of_take hk]

/-- The reader remembers the last word of the code. -/
theorem previous_stateAfter (ks : List Token) : (stateAfter ks).previous = (codeWords ks).getLastD [] := by
  induction ks using List.reverseRecOn with
  | nil => rfl
  | append_singleton ks k ih =>
    rw [stateAfter_concat, previous_token, ih, codeWords_append, codeWords_cons, codeWords_nil, List.append_nil]
    by_cases hk : k.isPassed = true
    · rw [if_pos hk, if_pos hk, List.append_nil]
    · rw [if_neg hk, if_neg hk, List.getLastD_concat]

/-- The word `array` is pending when nothing but what is read over came after it, and it named nothing. -/
theorem pending_stateAfter_iff (ks : List Token) (i : Nat) :
    (stateAfter ks).pending = some i ↔ ∃ before word between, ks = before ++ word :: between ∧ isArrayWord word = true ∧
      (codeWords before).getLastD [] ∉ namingWords ∧ (∀ k ∈ between, k.isPassed = true) ∧ word.offset = i := by
  induction ks using List.reverseRecOn with
  | nil => exact iff_of_false nofun (by simp)
  | append_singleton ks k ih =>
    rw [stateAfter_concat, pending_token_iff, previous_stateAfter, ih]
    constructor
    · rintro (⟨hk, before, word, between, rfl, hword, hfree, hpassed, hi⟩ | ⟨hword, hfree, hi⟩)
      · refine ⟨before, word, between ++ [k], by simp, hword, hfree, ?_, hi⟩
        exact List.forall_mem_append.2 ⟨hpassed, List.forall_mem_singleton.2 hk⟩
      · exact ⟨ks, k, [], rfl, hword, hfree, by simp, hi⟩
    · rintro ⟨before, word, between, heq, hword, hfree, hpassed, hi⟩
      rcases List.eq_nil_or_concat between with rfl | ⟨between, last, rfl⟩
      · obtain ⟨rfl, hlast⟩ := List.append_inj' heq rfl
        obtain rfl := List.singleton_inj.1 hlast
        exact .inr ⟨hword, hfree, hi⟩
      · rw [List.concat_eq_append] at heq hpassed
        rw [← List.cons_append, ← List.append_assoc] at heq
        obtain ⟨rfl, hlast⟩ := List.append_inj' heq rfl
        obtain rfl := List.singleton_inj.1 hlast
        obtain ⟨hpassed, hk⟩ := List.forall_mem_append.1 hpassed
        exact .inl ⟨hk k List.mem_cons_self, before, word, between, rfl, hword, hfree, hpassed, hi⟩

/-- A token writes an opening bracket when it is punctuation that starts with a parenthesis, and the word `array` is pending. -/
theorem mem_token_opening_iff (s : State) (k : Token) (i j : Nat) :
    ⟨i, j, '['⟩ ∈ (token s k).1 ↔ k.kind = .punctuation ∧ k.text.head? = some ('(' : CodePoint) ∧ s.pending = some i ∧
      j = k.offset + 1 := by
  refine ⟨fun he => opening_token he rfl, ?_⟩
  rintro ⟨hkind, hopen, hpending, rfl⟩
  obtain ⟨rest, htext⟩ := List.head?_eq_some_iff.1 hopen
  have hk : ¬ (k.text.isEmpty || k.kind.isTrivia) = true := by
    rw [htext, hkind]
    exact Bool.false_ne_true
  rw [token_of_take hk, take, if_pos hkind, htext, marks, mark_opening, hpending]
  exact List.mem_append_left _ List.mem_cons_self

end ShortArrays

/-- An opening bracket is written for every array literal, from its word up to and with its parenthesis, and for nothing else. -/
theorem mem_edits_opening_iff (ks : List Token) (i j : Nat) :
    ⟨i, j, '['⟩ ∈ ShortArrays.edits ks ↔ ∃ before word between mark after,
      ArrayLiteral ks before word between mark after ∧ i = word.offset ∧ j = mark.offset + 1 := by
  simp only [ShortArrays.mem_edits_iff, ShortArrays.mem_token_opening_iff, ShortArrays.pending_stateAfter_iff]
  constructor
  · rintro ⟨_, mark, after, rfl, hkind, hopen, ⟨before, word, between, rfl, hword, hfree, hpassed, rfl⟩, rfl⟩
    exact ⟨before, word, between, mark, after, ⟨by simp, hword, hfree, hpassed, hkind, hopen⟩, rfl, rfl⟩
  · rintro ⟨before, word, between, mark, after, h, rfl, rfl⟩
    exact ⟨before ++ word :: between, mark, after, by simp [h.source], h.punctuation, h.opening,
      ⟨before, word, between, rfl, h.isArrayWord, h.free, h.passed, rfl⟩, rfl⟩

/-! ## What the edits touch -/

/-- An edit replaces some of the text of a token. -/
def Edit.Touches (e : Edit) (k : Token) : Prop := ∃ n, e.start ≤ n ∧ n < e.stop ∧ k.Holds n

/-- The edit that opens an array touches the tokens from the word `array` to the parenthesis at most. -/
theorem ArrayLiteral.mem_of_touches {ks before between after : List Token} {word mark : Token} {t : Text}
    (h : ArrayLiteral ks before word between mark after) (hks : Tiles 0 ks t) {k : Token} (hk : k ∈ ks)
    (htouches : Edit.Touches ⟨word.offset, mark.offset + 1, '['⟩ k) : k = word ∨ k ∈ between ∨ k = mark := by
  obtain ⟨n, hlow, hhigh, hholds⟩ := htouches
  simp only at hlow hhigh
  have hapart := hks.pairwise.1
  rw [h.source] at hk hapart
  rw [List.pairwise_append, List.pairwise_cons, List.pairwise_append, List.pairwise_cons] at hapart
  obtain ⟨-, ⟨-, -, ⟨hafter, -⟩, -⟩, hbefore⟩ := hapart
  simp only [List.mem_append, List.mem_cons] at hk
  rcases hk with hk | rfl | hk | rfl | hk
  · have := hbefore k hk word List.mem_cons_self
    exact absurd hholds.2 (by omega)
  · exact .inl rfl
  · exact .inr (.inl hk)
  · exact .inr (.inr rfl)
  · have hle := hafter k hk
    obtain ⟨rest, htext⟩ := List.head?_eq_some_iff.1 h.opening
    rw [htext, List.length_cons] at hle
    exact absurd hholds.1 (by omega)

/-- A parenthesis of a source stands in a token of punctuation. -/
theorem Parenthesis.exists_token {ks : List Token} {p : Parenthesis} (hp : p ∈ inTokens ks) :
    ∃ k ∈ ks, k.kind = .punctuation ∧ k.Holds p.offset := by
  have hinText {offset : Nat} {t : Text} (hp : p ∈ inText offset t) : offset ≤ p.offset ∧ p.offset < offset + t.length := by
    induction t generalizing offset with
    | nil => cases hp
    | cons c t ih =>
      rw [inText, List.mem_append] at hp
      rw [List.length_cons]
      rcases hp with hp | hp
      · rw [Option.mem_toList, ofMark?] at hp
        split at hp
        · cases hp
          exact ⟨Nat.le_refl _, by simp⟩
        · split at hp
          · cases hp
            exact ⟨Nat.le_refl _, by simp⟩
          · cases hp
      · have := ih hp
        omega
  obtain ⟨k, hk, hp⟩ := List.mem_flatMap.1 hp
  rw [inToken] at hp
  split at hp
  · rename_i hkind
    exact ⟨k, hk, hkind, hinText hp⟩
  · cases hp

/-- An edit that writes a closing bracket touches punctuation. -/
theorem punctuation_of_closing {ks : List Token} {t : Text} (hks : Tiles 0 ks t) {e : Edit} (he : e ∈ ShortArrays.edits ks)
    (hclose : e.replacement = (']' : CodePoint)) {k : Token} (hk : k ∈ ks) (htouches : e.Touches k) : k.kind = .punctuation := by
  obtain ⟨_, _, htracks⟩ := ShortArrays.tracks_edits hks
  obtain ⟨hstop, i, -, hcloses⟩ := htracks.closing e he hclose
  obtain ⟨k', hk', hkind, hholds'⟩ := Parenthesis.exists_token hcloses.mem_closing
  obtain ⟨n, hlow, hhigh, hholds⟩ := htouches
  obtain rfl : n = e.start := by omega
  obtain ⟨before, after, rfl⟩ := List.append_of_mem hk
  obtain ⟨before', after', heq⟩ := List.append_of_mem hk'
  obtain ⟨-, rfl, -⟩ := hks.eq_of_holds heq hholds hholds'
  exact hkind

/-- What an edit touches is punctuation, or it is the word of an array literal or stands between that and the parenthesis. -/
theorem kind_of_touched {ks : List Token} {t : Text} (hks : Tiles 0 ks t) {e : Edit} (he : e ∈ ShortArrays.edits ks)
    {k : Token} (hk : k ∈ ks) (htouches : e.Touches k) :
    k.kind = .punctuation ∨ ∃ before word between mark after,
      ArrayLiteral ks before word between mark after ∧ (k = word ∨ k ∈ between) := by
  rcases ((ShortArrays.edits_spec hks).2 e he).bracket with hopen | ⟨hclose, -⟩
  · obtain ⟨start, stop, replacement⟩ := e
    subst hopen
    obtain ⟨before, word, between, mark, after, h, rfl, rfl⟩ := (mem_edits_opening_iff ks start stop).1 he
    rcases h.mem_of_touches hks hk htouches with hword | hbetween | rfl
    · exact .inr ⟨before, word, between, mark, after, h, .inl hword⟩
    · exact .inr ⟨before, word, between, mark, after, h, .inr hbetween⟩
    · exact .inl h.punctuation
  · exact .inl (punctuation_of_closing hks he hclose hk htouches)

end SourceTidy.Php
