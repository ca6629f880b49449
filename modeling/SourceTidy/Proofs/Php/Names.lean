import SourceTidy.Proofs.Php.Literals

/-!
# Members and functions that are named array

The word `array` is the name of a member after a sign of access, and the name of a function after the word `function`, which may be
followed by the mark of a reference. The edits look at the last word alone, so they leave every member alone, and every function
but one that gives back a reference or is announced by letters that the lexer alone takes for those of `function`
(`names_left_alone_iff`).
-/

namespace SourceTidy.Php

/-- A token of a source is a name: it is the word `array` after a sign of access or the word `function`, or the lexer says so. -/
inductive IsName (before : List Token) (k : Token) : Prop where
  | ofMember (hword : ShortArrays.isArrayWord k = true) (h : EndsWithAccess (codeWords before))
  | ofFunction (hword : ShortArrays.isArrayWord k = true) (h : EndsWithFunction (codeWords before))
  | member (h : k.kind = .member)
  | functionName (h : k.kind = .functionName)
  | magicFunction (h : k.kind = .magicFunction)

/-- Some words end with `function` and the mark of a reference, or with letters that the lexer takes for those of `function` though
they are not all the same. -/
def EndsUnguarded (words : List Text) : Prop :=
  ∃ front word, word.map bareCase = Text.ofString "function" ∧
    (words = front ++ [word, Text.ofString "&"] ∨ word ≠ Text.ofString "function" ∧ words = front ++ [word])

theorem EndsUnguarded.endsWithFunction {words : List Text} (h : EndsUnguarded words) : EndsWithFunction words := by
  obtain ⟨front, word, hword, hwords | ⟨-, hwords⟩⟩ := h
  · exact ⟨front, word, hword, .inr hwords⟩
  · exact ⟨front, word, hword, .inl hwords⟩

section Free

variable {words : List Text} (hfree : words.getLastD [] ∉ ShortArrays.namingWords)
include hfree

theorem not_endsWithAccess_of_free : ¬ EndsWithAccess words := by
  rintro ⟨sign, hsign, hlast⟩
  have hnaming : ∀ sign ∈ accessSigns, sign ∈ ShortArrays.namingWords := by decide
  rw [List.getLastD_eq_getLast?, hlast] at hfree
  exact hfree (hnaming sign hsign)

theorem endsUnguarded_of_free (h : EndsWithFunction words) : EndsUnguarded words := by
  obtain ⟨front, word, hword, hwords | hwords⟩ := h
  · refine ⟨front, word, hword, .inr ⟨?_, hwords⟩⟩
    rintro rfl
    rw [hwords, List.getLastD_concat] at hfree
    exact hfree (by decide)
  · exact ⟨front, word, hword, .inl hwords⟩

end Free

/-- What an edit touches, unless it is punctuation or read over, is the word of an array literal. -/
theorem arrayLiteral_of_touched {ks before after : List Token} {k : Token} {t : Text} (hks : Tiles 0 ks t)
    (hsplit : ks = before ++ k :: after) (hkind : k.kind.isTrivia = false) (hpunctuation : k.kind ≠ .punctuation) {e : Edit}
    (he : e ∈ ShortArrays.edits ks) (htouches : e.Touches k) :
    ∃ between mark after', ArrayLiteral ks before k between mark after' := by
  have hk : k ∈ ks := by
    rw [hsplit]
    exact List.mem_append_right before List.mem_cons_self
  obtain ⟨n, -, -, hholds⟩ := id htouches
  rcases kind_of_touched hks he hk htouches with h | ⟨before', word, between, mark, after', h, rfl | hbetween⟩
  · exact absurd h hpunctuation
  · have hsource := h.source
    rw [hsplit] at hks hsource
    obtain ⟨rfl, -, -⟩ := hks.eq_of_holds hsource hholds hholds
    exact ⟨between, mark, after', h⟩
  · have hpassed := h.passed k hbetween
    rw [Token.isPassed, hkind, Bool.or_false, List.isEmpty_iff] at hpassed
    rw [Token.Holds, hpassed, List.length_nil] at hholds
    omega

/-- The edit that opens an array touches its word. -/
theorem ArrayLiteral.touches_word {ks before between after : List Token} {word mark : Token} {t : Text}
    (h : ArrayLiteral ks before word between mark after) (hks : Tiles 0 ks t) :
    Edit.Touches ⟨word.offset, mark.offset + 1, '['⟩ word := by
  have hapart := hks.pairwise.1
  rw [h.source, List.pairwise_append, List.pairwise_cons] at hapart
  have hle := hapart.2.1.1 mark (List.mem_append_right _ List.mem_cons_self)
  have hpos : 0 < word.text.length := by
    refine List.length_pos_of_ne_nil ?_
    intro hempty
    exact ShortArrays.not_readOver_of_isArrayWord h.isArrayWord (by rw [hempty]; rfl)
  exact ⟨word.offset, Nat.le_refl _, by simp only; omega, Nat.le_refl _, by omega⟩

theorem kind_of_isArrayWord {k : Token} (h : ShortArrays.isArrayWord k = true) :
    k.kind.isTrivia = false ∧ k.kind ≠ .punctuation := by
  have hread := ShortArrays.not_readOver_of_isArrayWord h
  rw [Bool.or_eq_true, not_or, Bool.not_eq_true, Bool.not_eq_true] at hread
  refine ⟨hread.2, ?_⟩
  intro hkind
  simp [ShortArrays.isArrayWord, hkind, TokenKind.isName] at h

/-- The word of an array literal starts a word. -/
theorem ArrayLiteral.isWord_word {ks before between after : List Token} {word mark : Token}
    (h : ArrayLiteral ks before word between mark after) : word.text.head?.any CodePoint.isWord = true := by
  have htext := h.text_word
  cases hword : word.text with
  | nil =>
    rw [hword] at htext
    cases htext
  | cons c rest =>
    rw [hword] at htext
    obtain ⟨hc, -⟩ := List.cons.inj htext
    rw [List.head?_cons, Option.any_some, ← Scan.isWord_asciiLower, hc]
    decide

theorem ArrayLiteral.notMem_magicMethods {ks before between after : List Token} {word mark : Token}
    (h : ArrayLiteral ks before word between mark after) : word.text.map bareCase ∉ magicMethods := by
  rw [← Scan.map_bareCase_asciiLower, h.text_word]
  decide

/-- A name is no punctuation and is not read over. -/
theorem IsName.kind {before : List Token} {k : Token} (h : IsName before k) :
    k.kind.isTrivia = false ∧ k.kind ≠ .punctuation := by
  cases h with
  | ofMember hword => exact kind_of_isArrayWord hword
  | ofFunction hword => exact kind_of_isArrayWord hword
  | member hkind =>
    rw [hkind]
    exact ⟨rfl, by decide⟩
  | functionName hkind =>
    rw [hkind]
    exact ⟨rfl, by decide⟩
  | magicFunction hkind =>
    rw [hkind]
    exact ⟨rfl, by decide⟩

/-- A name that is taken for an array literal is the name of a function that is not guarded. -/
theorem ArrayLiteral.endsUnguarded {php : Lexer} {t : Text} {before between after : List Token} {word mark : Token}
    (h : ArrayLiteral (php.tokens t) before word between mark after) (hname : IsName before word) :
    EndsUnguarded (codeWords before) := by
  have hfits := php.fits h.source
  refine endsUnguarded_of_free h.free ?_
  cases hname with
  | ofMember _ haccess => exact absurd haccess (not_endsWithAccess_of_free h.free)
  | ofFunction _ hwords => exact hwords
  | member hkind => exact absurd (hfits.member hkind) (not_endsWithAccess_of_free h.free)
  | functionName hkind => exact hfits.function hkind h.isWord_word
  | magicFunction hkind => exact absurd (hfits.magic hkind) h.notMem_magicMethods

/-- Edits touch no member, and no function that is announced by the word `function` directly before it. They touch no name at all
exactly when no array literal comes after `function` and the mark of a reference, or after letters that are taken for those of
`function`. -/
theorem names_left_alone_iff (php : Lexer) (t : Text) :
    (∀ before k after, php.tokens t = before ++ k :: after →
        ShortArrays.isArrayWord k = true ∧ (∃ word ∈ ShortArrays.namingWords, (codeWords before).getLast? = some word) ∨
          k.kind = .member →
        ∀ e ∈ ShortArrays.edits (php.tokens t), ¬ e.Touches k) ∧
      ((∀ before k after, php.tokens t = before ++ k :: after → IsName before k →
          ∀ e ∈ ShortArrays.edits (php.tokens t), ¬ e.Touches k) ↔
        ¬ ∃ before word between mark after, ArrayLiteral (php.tokens t) before word between mark after ∧
          EndsUnguarded (codeWords before)) := by
  have htiles := php.tiles t
  refine ⟨?_, ?_, ?_⟩
  · intro before k after hsplit hk e he htouches
    rcases hk with ⟨hword, sign, hsign, hlast⟩ | hmember
    · obtain ⟨hkind, hpunctuation⟩ := kind_of_isArrayWord hword
      obtain ⟨between, mark, after', h⟩ := arrayLiteral_of_touched htiles hsplit hkind hpunctuation he htouches
      have hfree := h.free
      rw [List.getLastD_eq_getLast?, hlast] at hfree
      exact hfree hsign
    · have hname : IsName before k := .member hmember
      obtain ⟨between, mark, after', h⟩ := arrayLiteral_of_touched htiles hsplit hname.kind.1 hname.kind.2 he htouches
      exact not_endsWithAccess_of_free h.free ((php.fits hsplit).member hmember)
  · rintro hspared ⟨before, word, between, mark, after, h, hwords⟩
    have he := (mem_edits_opening_iff _ _ _).2 ⟨before, word, between, mark, after, h, rfl, rfl⟩
    have hname : IsName before word := .ofFunction h.isArrayWord hwords.endsWithFunction
    exact hspared before word _ h.source hname _ he (h.touches_word htiles)
  · intro hnone before k after hsplit hname e he htouches
    obtain ⟨between, mark, after', h⟩ := arrayLiteral_of_touched htiles hsplit hname.kind.1 hname.kind.2 he htouches
    exact hnone ⟨before, k, between, mark, after', h, h.endsUnguarded hname⟩

/-- A function that is named array and gives back a reference. -/
def referenceFunction : Text := "<?php function &array() \x7b\x7d"

/-- Its name is written with brackets. -/
theorem reference_function_is_rewritten :
    tokens referenceFunction = [⟨0, .tag, "<?php"⟩, ⟨5, .space, " "⟩, ⟨6, .keyword, "function"⟩, ⟨14, .space, " "⟩,
        ⟨15, .operator, "&"⟩, ⟨16, .functionName, "array"⟩, ⟨21, .punctuation, "()"⟩, ⟨23, .space, " "⟩,
        ⟨24, .punctuation, "\x7b\x7d"⟩] ∧
      ShortArrays.edits (tokens referenceFunction) = [⟨16, 22, '['⟩, ⟨22, 23, ']'⟩] ∧
      Edit.Touches ⟨16, 22, '['⟩ ⟨16, .functionName, "array"⟩ ∧
      Task.fixArrays (tokens referenceFunction) referenceFunction =
        ([⟨.fix, "uses old array() syntax", some 1⟩], Text.ofString "<?php function &[] \x7b\x7d") := by
  have htokens : tokens referenceFunction = [⟨0, .tag, "<?php"⟩, ⟨5, .space, " "⟩, ⟨6, .keyword, "function"⟩,
      ⟨14, .space, " "⟩, ⟨15, .operator, "&"⟩, ⟨16, .functionName, "array"⟩, ⟨21, .punctuation, "()"⟩, ⟨23, .space, " "⟩,
      ⟨24, .punctuation, "\x7b\x7d"⟩] := by cbv
  have hedits : ShortArrays.edits (tokens referenceFunction) = [⟨16, 22, '['⟩, ⟨22, 23, ']'⟩] := by
    rw [ShortArrays.edits_eq_editsFrom (tiles_tokens referenceFunction), htokens]
    decide +kernel
  refine ⟨htokens, hedits, ⟨16, by decide, by decide, by decide, by decide⟩, ?_⟩
  rw [Task.fixArrays, hedits]
  decide +kernel

end SourceTidy.Php
