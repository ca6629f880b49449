import Mathlib.Data.List.Basic
import SourceTidy.Text.CodePoint

/-!
# Texts with a separator

A text can be cut at every separator (`split`), and pieces can be put together with one between neighbours (`join`). Pieces
without the separator come back from the text that they are joined to (`split_join`), and the pieces of a text join to it
(`join_split`).
-/

namespace SourceTidy.Text

theorem split_ne_nil (separator : CodePoint) (t : Text) : split separator t ≠ [] := by
  cases t with
  | nil => exact List.cons_ne_nil _ _
  | cons c t =>
    rw [split]
    split
    · exact List.cons_ne_nil _ _
    · split <;> exact List.cons_ne_nil _ _

variable {separator : CodePoint}

theorem split_cons_separator (t : Text) : split separator (separator :: t) = [] :: split separator t := by
  obtain ⟨piece, pieces, h⟩ := List.exists_cons_of_ne_nil (split_ne_nil separator t)
  simp only [split, h, if_pos]

/-- A code point that is no separator is at the head of the first piece. -/
theorem split_cons_of_ne {c : CodePoint} (hc : c ≠ separator) {t piece : Text} {pieces : List Text}
    (h : split separator t = piece :: pieces) : split separator (c :: t) = (c :: piece) :: pieces := by
  simp only [split, h]
  exact if_neg hc

theorem split_of_notMem {t : Text} (h : separator ∉ t) : split separator t = [t] := by
  induction t with
  | nil => rfl
  | cons c t ih =>
    rw [List.mem_cons, not_or] at h
    exact split_cons_of_ne (Ne.symm h.1) (ih h.2)

/-- A text is cut at a separator, whatever stands around it. -/
theorem split_append_cons (s t : Text) :
    split separator (s ++ separator :: t) = split separator s ++ split separator t := by
  induction s with
  | nil => exact split_cons_separator t
  | cons c s ih =>
    by_cases hc : c = separator
    · rw [hc, List.cons_append, split_cons_separator, split_cons_separator, ih, List.cons_append]
    · obtain ⟨piece, pieces, hs⟩ := List.exists_cons_of_ne_nil (split_ne_nil separator s)
      rw [hs] at ih
      rw [List.cons_append, split_cons_of_ne hc ih, split_cons_of_ne hc hs]
      rfl

/-- The pieces of texts that are joined are the pieces of each. -/
theorem split_join_eq_flatMap {ts : List Text} (h : ts ≠ []) :
    split separator (join [separator] ts) = ts.flatMap (split separator) := by
  induction ts with
  | nil => exact absurd rfl h
  | cons t ts ih =>
    cases ts with
    | nil => exact (List.append_nil _).symm
    | cons u ts =>
      rw [join, List.append_assoc, List.singleton_append, split_append_cons, ih (List.cons_ne_nil u ts)]
      rfl

/-- Pieces without the separator are read off the text that they are joined to. -/
theorem split_join {ts : List Text} (hne : ts ≠ []) (hts : ∀ t ∈ ts, separator ∉ t) :
    split separator (join [separator] ts) = ts := by
  rw [split_join_eq_flatMap hne, List.flatMap_congr fun t ht => split_of_notMem (hts t ht), List.flatMap_singleton']

theorem join_cons_of_ne_nil {ts : List Text} (h : ts ≠ []) (t : Text) :
    join [separator] (t :: ts) = t ++ separator :: join [separator] ts := by
  obtain ⟨u, ts, rfl⟩ := List.exists_cons_of_ne_nil h
  rw [join, List.append_assoc]
  rfl

/-- No piece holds the separator, and the pieces join to the text. -/
theorem join_split (separator : CodePoint) (t : Text) :
    join [separator] (split separator t) = t ∧ ∀ piece ∈ split separator t, separator ∉ piece := by
  induction t with
  | nil => exact ⟨rfl, by simp [split]⟩
  | cons c t ih =>
    obtain ⟨hjoin, hpieces⟩ := ih
    by_cases hc : c = separator
    · rw [hc, split_cons_separator, join_cons_of_ne_nil (split_ne_nil separator t), hjoin]
      exact ⟨rfl, List.forall_mem_cons.2 ⟨List.not_mem_nil, hpieces⟩⟩
    · obtain ⟨piece, pieces, h⟩ := List.exists_cons_of_ne_nil (split_ne_nil separator t)
      rw [h] at hjoin hpieces
      rw [split_cons_of_ne hc h, ← hjoin]
      refine ⟨by cases pieces <;> rfl, ?_⟩
      rw [List.forall_mem_cons] at hpieces ⊢
      exact ⟨List.not_mem_cons_of_ne_of_not_mem (Ne.symm hc) hpieces.1, hpieces.2⟩

end SourceTidy.Text
