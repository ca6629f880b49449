import SourceTidy.Php.Lexer

/-!
# The tokens of a source tile it

No code point of a source is lost, added or moved when it is cut into tokens: their texts, one after the other, are the
source, and each stands at its offset. What the corrections of PHP sources do is shown for any tokens that tile a text.
-/

namespace SourceTidy.Php

/-- A place of a source is held by a token that stands there. -/
def Token.Holds (k : Token) (n : Nat) : Prop := k.offset ≤ n ∧ n < k.offset + k.text.length

/-- Tokens that are cut from a text one after the other, the first of them at an offset. -/
inductive Tiles : Nat → List Token → Text → Prop where
  | nil (offset : Nat) : Tiles offset [] []
  | cons {offset : Nat} {k : Token} {ks : List Token} {t : Text} (hoffset : k.offset = offset)
      (tail : Tiles (offset + k.text.length) ks t) : Tiles offset (k :: ks) (k.text ++ t)

namespace Tiles

/-- Tokens of one text followed by those of another. -/
theorem append {offset : Nat} {ks ks' : List Token} {t t' : Text} (h : Tiles offset ks t)
    (h' : Tiles (offset + t.length) ks' t') : Tiles offset (ks ++ ks') (t ++ t') := by
  induction h with
  | nil => exact h'
  | @cons offset k ks t hoffset tail ih =>
    rw [List.append_assoc]
    refine .cons hoffset (ih ?_)
    rw [Nat.add_assoc, ← List.length_append]
    exact h'

/-- One code point as a token of its own. -/
theorem single {offset : Nat} {ks : List Token} {t : Text} (kind : TokenKind) (c : CodePoint)
    (tail : Tiles (offset + 1) ks t) : Tiles offset (⟨offset, kind, [c]⟩ :: ks) (c :: t) :=
  .cons (k := ⟨offset, kind, [c]⟩) rfl tail

/-- Where the tokens are parted, the text is. -/
theorem of_append {offset : Nat} {ks ks' : List Token} {t : Text} (h : Tiles offset (ks ++ ks') t) :
    ∃ front rest, t = front ++ rest ∧ Tiles offset ks front ∧ Tiles (offset + front.length) ks' rest := by
  induction ks generalizing offset t with
  | nil => exact ⟨[], t, rfl, .nil offset, h⟩
  | cons k ks ih =>
    rw [List.cons_append] at h
    cases h with
    | cons hoffset tail =>
      obtain ⟨front, rest, rfl, hfront, hrest⟩ := ih tail
      refine ⟨k.text ++ front, rest, by simp, .cons hoffset hfront, ?_⟩
      rwa [List.length_append, ← Nat.add_assoc]

/-- Where one token stands in the text, and what the tokens before it and behind it tile. -/
theorem of_mem {offset : Nat} {before after : List Token} {k : Token} {t : Text}
    (h : Tiles offset (before ++ k :: after) t) :
    ∃ front rest, t = front ++ k.text ++ rest ∧ k.offset = offset + front.length ∧ Tiles offset before front ∧
      Tiles (k.offset + k.text.length) after rest := by
  obtain ⟨front, rest, rfl, hfront, hrest⟩ := h.of_append
  cases hrest with
  | @cons _ _ _ rest hoffset tail => exact ⟨front, rest, by simp, hoffset, hfront, by rwa [hoffset]⟩

/-- The texts of the tokens, one after the other, are the text. -/
theorem eq_flatMap {offset : Nat} {ks : List Token} {t : Text} (h : Tiles offset ks t) : t = ks.flatMap (·.text) := by
  induction h with
  | nil => rfl
  | @cons offset k ks t hoffset tail ih => rw [List.flatMap_cons, ← ih]

/-- Every place of the text is held by a token. -/
theorem exists_holds {offset n : Nat} {ks : List Token} {t : Text} (h : Tiles offset ks t) (hlow : offset ≤ n)
    (hhigh : n < offset + t.length) : ∃ k ∈ ks, k.Holds n := by
  induction h with
  | nil => simp only [List.length_nil] at hhigh; omega
  | @cons offset k ks t hoffset tail ih =>
    by_cases hk : n < offset + k.text.length
    · exact ⟨k, List.mem_cons_self, by rwa [hoffset], by rwa [hoffset]⟩
    · rw [List.length_append] at hhigh
      obtain ⟨k', hk', hholds⟩ := ih (by omega) (by omega)
      exact ⟨k', List.mem_cons_of_mem k hk', hholds⟩

/-- No token starts before its predecessors end. -/
theorem pairwise {offset : Nat} {ks : List Token} {t : Text} (h : Tiles offset ks t) :
    ks.Pairwise (fun k k' => k.offset + k.text.length ≤ k'.offset) ∧ ∀ k ∈ ks, offset ≤ k.offset := by
  induction h with
  | nil => exact ⟨.nil, by simp⟩
  | @cons offset k ks t hoffset tail ih =>
    rw [← hoffset] at ih ⊢
    refine ⟨List.pairwise_cons.2 ⟨ih.2, ih.1⟩, List.forall_mem_cons.2 ⟨Nat.le_refl _, fun k' hk' => ?_⟩⟩
    exact Nat.le_trans (Nat.le_add_right _ _) (ih.2 k' hk')

/-- A place is held by one token only, which is reached in one way only. -/
theorem eq_of_holds {offset n : Nat} {before before' after after' : List Token} {k k' : Token} {t : Text}
    (h : Tiles offset (before ++ k :: after) t) (heq : before ++ k :: after = before' ++ k' :: after') (hk : k.Holds n)
    (hk' : k'.Holds n) : before = before' ∧ k = k' ∧ after = after' := by
  -- If one of the two came first, it would end before the other one starts.
  have hone {before between after : List Token} {k k' : Token} (hk : k.Holds n) (hk' : k'.Holds n)
      (h : Tiles offset (before ++ k :: (between ++ k' :: after)) t) : False := by
    have hapart := (List.pairwise_append.1 h.pairwise.1).2.1
    have hle := List.rel_of_pairwise_cons hapart (List.mem_append_right between List.mem_cons_self)
    exact absurd (Nat.lt_of_lt_of_le hk.2 (Nat.le_trans hle hk'.1)) (Nat.lt_irrefl n)
  rcases List.append_eq_append_iff.1 heq with ⟨between, rfl, hbetween⟩ | ⟨between, rfl, hbetween⟩
  · cases between with
    | nil =>
      obtain ⟨rfl, rfl⟩ := List.cons.inj hbetween
      exact ⟨by simp, rfl, rfl⟩
    | cons first between =>
      obtain ⟨rfl, rfl⟩ := List.cons.inj hbetween
      exact (hone hk hk' h).elim
  · cases between with
    | nil =>
      obtain ⟨rfl, rfl⟩ := List.cons.inj hbetween
      exact ⟨by simp, rfl, rfl⟩
    | cons first between =>
      obtain ⟨rfl, rfl⟩ := List.cons.inj hbetween
      exact (hone hk' hk (heq ▸ h)).elim

end Tiles

/-- The tokens that are cut by lengths tile as much of a text as the lengths take. -/
theorem tiles_slices (offset : Nat) (parts : List (TokenKind × Nat)) (t : Text) :
    Tiles offset (slices offset parts t) (t.take (totalLength parts)) := by
  induction parts generalizing offset t with
  | nil => exact .nil offset
  | cons part parts ih =>
    obtain ⟨kind, n⟩ := part
    have htotal : totalLength ((kind, n) :: parts) = n + totalLength parts := rfl
    rw [htotal, List.take_add, slices]
    cases hpiece : t.take n with
    | nil =>
      have hdrop : t.drop n = t := by
        have := List.take_append_drop n t
        rwa [hpiece] at this
      rw [hdrop]
      exact ih offset t
    | cons c piece => exact .cons rfl (ih _ _)

/-- The tokens of a text that is read with a stack of modes tile it. -/
theorem tiles_tokensFrom (offset : Nat) (stack : List Mode) (t : Text) : Tiles offset (tokensFrom offset stack t) t := by
  fun_induction tokensFrom offset stack t with
  | case1 offset stack => exact .nil offset
  | case2 offset stack c rest t parts move hcut n hn ih =>
    have := (tiles_slices offset parts t).append ih
    rwa [List.take_append_drop] at this
  | case3 offset c rest t parts move n hn head m below hcut ih => exact ih
  | case4 offset stack c rest t parts move hcut n hn hstack ih => exact .single .error c ih
  | case5 offset stack c rest t opening code closing hpos move hcut afterOpening ihcode ihrest =>
    have hopening := tiles_slices offset [(.interpolation, opening)] t
    have hclosing := tiles_slices (offset + (t.take (opening + code)).length) [(.interpolation, closing)]
      (afterOpening.drop code)
    simp only [totalLength, List.foldr_cons, List.foldr_nil, Nat.add_zero] at hopening hclosing
    have hcode : t.take opening ++ afterOpening.take code = t.take (opening + code) := List.take_add.symm
    have hall : t.take (opening + code) ++ (afterOpening.drop code).take closing = t.take (opening + code + closing) := by
      rw [List.take_add (i := opening + code), List.drop_drop]
    have h₁ := hopening.append ihcode
    rw [hcode] at h₁
    have h₂ := h₁.append hclosing
    rw [hall] at h₂
    have h₃ := h₂.append ihrest
    rwa [List.take_append_drop] at h₃
  | case6 offset stack rest t hcut ih => exact .single .reset '\n' ih
  | case7 offset stack c rest t hcut hc ih => exact .single .error c ih

/-- The tokens of a text tile it. -/
theorem tiles_tokens (t : Text) : Tiles 0 (tokens t) t := tiles_tokensFrom 0 [.html] t

/-- A way to cut sources into tokens that tile them. -/
structure Tokenizer where
  tokens : Text → List Token
  tiles : ∀ t, Tiles 0 (tokens t) t

/-- The tokens of this library. -/
def tokenizer : Tokenizer := ⟨tokens, tiles_tokensFrom 0 [.html]⟩

end SourceTidy.Php
