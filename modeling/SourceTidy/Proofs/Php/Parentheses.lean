import Mathlib.Data.List.Induction
import SourceTidy.Php.Token

/-!
# Parentheses that close each other

The parentheses of a source are those of its tokens of punctuation; the ones in strings, comments and text outside of the code
do not count. A parenthesis closes another one when those between the two are balanced (`Closes`). Reading the parentheses
one after the other, the open ones are kept on a stack (`unclosed`), and its top is the one that the next closing parenthesis
closes (`closes_concat_iff`).
-/

namespace SourceTidy.Php

/-- A parenthesis: where it stands, and whether it opens. -/
structure Parenthesis where
  offset : Nat
  isOpening : Bool
  deriving DecidableEq, Repr

namespace Parenthesis

/-- The parenthesis that stands at an offset, if a code point is one. -/
def ofMark? (offset : Nat) (c : CodePoint) : Option Parenthesis :=
  if c = '(' then some ⟨offset, true⟩ else if c = ')' then some ⟨offset, false⟩ else none

/-- The parentheses of a text that starts at an offset. -/
def inText : Nat → Text → List Parenthesis
  | _, [] => []
  | offset, c :: rest => (ofMark? offset c).toList ++ inText (offset + 1) rest

/-- The parentheses of a token: those of its text, if it is punctuation. -/
def inToken (k : Token) : List Parenthesis := if k.kind = .punctuation then inText k.offset k.text else []

/-- The parentheses of a source. -/
def inTokens (ks : List Token) : List Parenthesis := ks.flatMap inToken

end Parenthesis

/-- Parentheses each of which closes another one or is closed. -/
inductive Balanced : List Parenthesis → Prop where
  | nil : Balanced []
  | nest {i j : Nat} {inner rest : List Parenthesis} (hinner : Balanced inner) (hrest : Balanced rest) :
      Balanced (⟨i, true⟩ :: (inner ++ ⟨j, false⟩ :: rest))

/-- `Closes ps i j`: the parenthesis at `j` closes the one at `i`. -/
def Closes (ps : List Parenthesis) (i j : Nat) : Prop :=
  ∃ before inner after, ps = before ++ ⟨i, true⟩ :: (inner ++ ⟨j, false⟩ :: after) ∧ Balanced inner

/-- What one parenthesis does to the stack of those that are open: it goes on it, or takes the top away. -/
def stackUp (stack : List Nat) (p : Parenthesis) : List Nat := if p.isOpening then p.offset :: stack else stack.tail

/-- Where the parentheses stand that are open at the end, the innermost first. -/
def unclosed (ps : List Parenthesis) : List Nat := ps.foldl stackUp []

theorem Balanced.append {ps qs : List Parenthesis} (h : Balanced ps) (h' : Balanced qs) : Balanced (ps ++ qs) := by
  induction h with
  | nil => exact h'
  | nest hinner hrest ihinner ihrest =>
    rw [List.cons_append, List.append_assoc, List.cons_append]
    exact .nest hinner ihrest

/-- Balanced parentheses leave the stack as it was. -/
theorem Balanced.foldl_stackUp {ps : List Parenthesis} (h : Balanced ps) (stack : List Nat) :
    ps.foldl stackUp stack = stack := by
  induction h generalizing stack with
  | nil => rfl
  | @nest i j inner rest hinner hrest ihinner ihrest =>
    rw [List.foldl_cons, List.foldl_append, List.foldl_cons, ihinner, ihrest]
    rfl

@[simp] theorem unclosed_concat_opening (ps : List Parenthesis) (offset : Nat) :
    unclosed (ps ++ [⟨offset, true⟩]) = offset :: unclosed ps := by
  rw [unclosed, List.foldl_append]
  rfl

@[simp] theorem unclosed_concat_closing (ps : List Parenthesis) (offset : Nat) :
    unclosed (ps ++ [⟨offset, false⟩]) = (unclosed ps).tail := by
  rw [unclosed, List.foldl_append]
  rfl

/-- What is open is the last opening parenthesis that only balanced ones follow, and what is open before it. -/
theorem exists_of_unclosed_eq_cons {ps : List Parenthesis} {i : Nat} {below : List Nat} (h : unclosed ps = i :: below) :
    ∃ before inner, ps = before ++ ⟨i, true⟩ :: inner ∧ Balanced inner ∧ unclosed before = below := by
  -- A closing parenthesis is followed back to the one that it closes, and from there to the one below.
  induction hn : ps.length using Nat.strongRecOn generalizing ps i below with
  | ind n ih =>
    rcases List.eq_nil_or_concat ps with rfl | ⟨front, ⟨offset, isOpening⟩, rfl⟩
    · cases h
    · rw [List.concat_eq_append] at h hn ⊢
      rw [List.length_append, List.length_singleton] at hn
      cases isOpening with
      | true =>
        rw [unclosed_concat_opening] at h
        obtain ⟨rfl, rfl⟩ := List.cons.inj h
        exact ⟨front, [], rfl, .nil, rfl⟩
      | false =>
        rw [unclosed_concat_closing] at h
        obtain ⟨top, hfront⟩ : ∃ top, unclosed front = top :: i :: below := by
          cases hstack : unclosed front with
          | nil => rw [hstack] at h; cases h
          | cons top rest => rw [hstack, List.tail_cons] at h; exact ⟨top, by rw [h]⟩
        obtain ⟨front', inner, rfl, hinner, hfront'⟩ := ih front.length (by omega) hfront rfl
        rw [List.length_append] at hn
        obtain ⟨before, inner', rfl, hinner', hbefore⟩ := ih front'.length (by omega) hfront' rfl
        refine ⟨before, inner' ++ ⟨top, true⟩ :: (inner ++ [⟨offset, false⟩]), by simp, ?_, hbefore⟩
        exact hinner'.append (.nest hinner .nil)

/-- The top of the stack is the opening parenthesis that only balanced ones follow. -/
theorem head?_unclosed_iff (ps : List Parenthesis) (i : Nat) :
    (unclosed ps).head? = some i ↔ ∃ before inner, ps = before ++ ⟨i, true⟩ :: inner ∧ Balanced inner := by
  constructor
  · intro h
    obtain ⟨below, hstack⟩ := List.head?_eq_some_iff.1 h
    obtain ⟨before, inner, hps, hinner, -⟩ := exists_of_unclosed_eq_cons hstack
    exact ⟨before, inner, hps, hinner⟩
  · rintro ⟨before, inner, rfl, hinner⟩
    rw [unclosed, List.foldl_append, List.foldl_cons, hinner.foldl_stackUp]
    rfl

/-- One more parenthesis closes the one on the top of the stack, if it closes one. -/
theorem closes_concat_iff (ps : List Parenthesis) (p : Parenthesis) (i j : Nat) :
    Closes (ps ++ [p]) i j ↔ Closes ps i j ∨ p = ⟨j, false⟩ ∧ (unclosed ps).head? = some i := by
  rw [head?_unclosed_iff]
  constructor
  · rintro ⟨before, inner, after, heq, hinner⟩
    rcases List.eq_nil_or_concat after with rfl | ⟨after, q, rfl⟩
    · have hlast : ps ++ [p] = (before ++ ⟨i, true⟩ :: inner) ++ [⟨j, false⟩] := by simpa using heq
      obtain ⟨hps, hp⟩ := List.append_inj' hlast rfl
      exact .inr ⟨List.singleton_inj.1 hp, before, inner, hps, hinner⟩
    · have hlast : ps ++ [p] = (before ++ ⟨i, true⟩ :: (inner ++ ⟨j, false⟩ :: after)) ++ [q] := by simpa using heq
      exact .inl ⟨before, inner, after, (List.append_inj' hlast rfl).1, hinner⟩
  · rintro (⟨before, inner, after, rfl, hinner⟩ | ⟨rfl, before, inner, rfl, hinner⟩)
    · exact ⟨before, inner, after ++ [p], by simp, hinner⟩
    · exact ⟨before, inner, [], by simp, hinner⟩

/-- An opening parenthesis closes none. -/
theorem closes_concat_opening_iff (ps : List Parenthesis) (offset i j : Nat) :
    Closes (ps ++ [⟨offset, true⟩]) i j ↔ Closes ps i j := by
  simp [closes_concat_iff]

/-- A closing parenthesis closes the top of the stack. -/
theorem closes_concat_closing_iff (ps : List Parenthesis) (offset i j : Nat) :
    Closes (ps ++ [⟨offset, false⟩]) i j ↔ Closes ps i j ∨ offset = j ∧ (unclosed ps).head? = some i := by
  simp [closes_concat_iff]

theorem Closes.mem_opening {ps : List Parenthesis} {i j : Nat} (h : Closes ps i j) : ⟨i, true⟩ ∈ ps := by
  obtain ⟨before, inner, after, rfl, -⟩ := h
  simp

theorem Closes.mem_closing {ps : List Parenthesis} {i j : Nat} (h : Closes ps i j) : ⟨j, false⟩ ∈ ps := by
  obtain ⟨before, inner, after, rfl, -⟩ := h
  simp

theorem mem_of_mem_unclosed {ps : List Parenthesis} {i : Nat} (h : i ∈ unclosed ps) : ⟨i, true⟩ ∈ ps := by
  induction ps using List.reverseRecOn with
  | nil => cases h
  | append_singleton ps p ih =>
    obtain ⟨offset, isOpening⟩ := p
    cases isOpening with
    | true =>
      rw [unclosed_concat_opening] at h
      rcases List.mem_cons.1 h with rfl | h
      · exact List.mem_append_right _ List.mem_cons_self
      · exact List.mem_append_left _ (ih h)
    | false =>
      rw [unclosed_concat_closing] at h
      exact List.mem_append_left _ (ih (List.mem_of_mem_tail h))

/-- An opening parenthesis is open at the end, or it is closed. -/
theorem unclosed_or_closes {ps : List Parenthesis} {i : Nat} (h : ⟨i, true⟩ ∈ ps) :
    i ∈ unclosed ps ∨ ∃ j, Closes ps i j := by
  induction ps using List.reverseRecOn with
  | nil => cases h
  | append_singleton ps p ih =>
    rcases List.mem_append.1 h with hps | hp
    · rcases ih hps with hopen | ⟨j, hj⟩
      · obtain ⟨offset, isOpening⟩ := p
        cases isOpening with
        | true =>
          rw [unclosed_concat_opening]
          exact .inl (List.mem_cons_of_mem offset hopen)
        | false =>
          -- The new parenthesis closes the top of the stack and leaves the rest of it open.
          obtain ⟨top, below, hstack⟩ := List.exists_cons_of_ne_nil (List.ne_nil_of_mem hopen)
          rw [unclosed_concat_closing, hstack, List.tail_cons]
          rw [hstack] at hopen
          rcases List.mem_cons.1 hopen with rfl | hbelow
          · exact .inr ⟨offset, (closes_concat_closing_iff _ _ _ _).2 (.inr ⟨rfl, by rw [hstack, List.head?_cons]⟩)⟩
          · exact .inl hbelow
      · exact .inr ⟨j, (closes_concat_iff _ _ _ _).2 (.inl hj)⟩
    · rw [← List.mem_singleton.1 hp, unclosed_concat_opening]
      exact .inl List.mem_cons_self

section Ascending

/-- Parentheses in the order in which they stand. -/
def Ascending (ps : List Parenthesis) : Prop := ps.Pairwise fun p q => p.offset < q.offset

theorem ascending_concat_iff (ps : List Parenthesis) (p : Parenthesis) :
    Ascending (ps ++ [p]) ↔ Ascending ps ∧ ∀ q ∈ ps, q.offset < p.offset := by
  simp [Ascending, List.pairwise_append]

theorem nodup_unclosed {ps : List Parenthesis} (h : Ascending ps) : (unclosed ps).Nodup := by
  induction ps using List.reverseRecOn with
  | nil => exact .nil
  | append_singleton ps p ih =>
    obtain ⟨hps, hp⟩ := (ascending_concat_iff ps p).1 h
    obtain ⟨offset, isOpening⟩ := p
    cases isOpening with
    | true =>
      rw [unclosed_concat_opening]
      refine List.nodup_cons.2 ⟨fun hmem => ?_, ih hps⟩
      exact Nat.lt_irrefl offset (hp _ (mem_of_mem_unclosed hmem))
    | false =>
      rw [unclosed_concat_closing]
      exact (ih hps).tail

/-- A parenthesis that is open at the end is not closed. -/
theorem not_closes_of_mem_unclosed {ps : List Parenthesis} (h : Ascending ps) {i j : Nat} (hi : i ∈ unclosed ps) :
    ¬ Closes ps i j := by
  induction ps using List.reverseRecOn with
  | nil => cases hi
  | append_singleton ps p ih =>
    obtain ⟨hps, hp⟩ := (ascending_concat_iff ps p).1 h
    obtain ⟨offset, isOpening⟩ := p
    cases isOpening with
    | true =>
      rw [unclosed_concat_opening] at hi
      rw [closes_concat_opening_iff]
      intro hcloses
      rcases List.mem_cons.1 hi with rfl | hi
      · exact Nat.lt_irrefl _ (hp _ hcloses.mem_opening)
      · exact ih hps hi hcloses
    | false =>
      rw [unclosed_concat_closing] at hi
      rw [closes_concat_closing_iff]
      rintro (hcloses | ⟨-, htop⟩)
      · exact ih hps (List.mem_of_mem_tail hi) hcloses
      · obtain ⟨below, hstack⟩ := List.head?_eq_some_iff.1 htop
        have hnodup := nodup_unclosed hps
        rw [hstack] at hi hnodup
        exact (List.nodup_cons.1 hnodup).1 hi

end Ascending

end SourceTidy.Php
