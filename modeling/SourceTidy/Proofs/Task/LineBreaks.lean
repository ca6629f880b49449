import SourceTidy.Proofs.Task.Fixers

/-!
# Line breaks

A text is read from left to right, once: a carriage return and the line feed after it break a line together, and each of the
two breaks one alone where it does not stand in such a pair (`Scanned`). The correction of line ends goes over the text
twice, and what it does to the pairs first can leave new ones behind; still it comes to what one reading comes to, with one
line feed for each break (`fixLineEnds_agrees_with_one_scan`).
-/

namespace SourceTidy.Task

open Text (lineFeed carriageReturn)

/-- `Scanned t n t'`: reading `t` from left to right meets `n` line breaks, and `t'` is `t` with one line feed in the place of
each of them. -/
inductive Scanned : Text → Nat → Text → Prop where
  | done : Scanned [] 0 []
  /-- A carriage return and a line feed are one break. -/
  | pair {t t' : Text} {n : Nat} (tail : Scanned t n t') :
      Scanned (carriageReturn :: lineFeed :: t) (n + 1) (lineFeed :: t')
  /-- A carriage return that no line feed follows is a break of its own. -/
  | loneReturn {t t' : Text} {n : Nat} (hlone : t.head? ≠ some lineFeed) (tail : Scanned t n t') :
      Scanned (carriageReturn :: t) (n + 1) (lineFeed :: t')
  /-- So is a line feed that is not read as part of a pair. -/
  | loneFeed {t t' : Text} {n : Nat} (tail : Scanned t n t') : Scanned (lineFeed :: t) (n + 1) (lineFeed :: t')
  /-- Anything else is kept. -/
  | kept {t t' : Text} {n : Nat} {c : CodePoint} (hreturn : c ≠ carriageReturn) (hfeed : c ≠ lineFeed)
      (tail : Scanned t n t') : Scanned (c :: t) n (c :: t')

/-! ## The two replacements -/

theorem joinPairs_cons {c : CodePoint} {t : Text} (h : ¬ (c = carriageReturn ∧ t.head? = some lineFeed)) :
    Text.joinPairs (c :: t) = c :: t.joinPairs := by
  cases t with
  | nil => rfl
  | cons d t =>
    rw [Text.joinPairs, if_neg]
    rintro ⟨hc, hd⟩
    exact h ⟨hc, congrArg some hd⟩

theorem fixLineEnds_snd_pair (t : Text) :
    (fixLineEnds (carriageReturn :: lineFeed :: t)).2 = lineFeed :: (fixLineEnds t).2 := by
  rw [fixLineEnds_snd, Text.joinPairs, if_pos ⟨rfl, rfl⟩]
  rfl

theorem fixLineEnds_snd_cons {c : CodePoint} {t : Text} (h : ¬ (c = carriageReturn ∧ t.head? = some lineFeed)) :
    (fixLineEnds (c :: t)).2 = (if c = carriageReturn then lineFeed else c) :: (fixLineEnds t).2 := by
  rw [fixLineEnds_snd, joinPairs_cons h]
  rfl

/-! ## One reading -/

/-- One more code point that starts no pair. -/
theorem Scanned.exists_cons {c : CodePoint} {t t' : Text} {n : Nat}
    (h : ¬ (c = carriageReturn ∧ t.head? = some lineFeed)) (tail : Scanned t n t') :
    ∃ n', Scanned (c :: t) n' ((if c = carriageReturn then lineFeed else c) :: t') := by
  by_cases hreturn : c = carriageReturn
  · subst hreturn
    rw [if_pos rfl]
    exact ⟨n + 1, .loneReturn (fun hhead => h ⟨rfl, hhead⟩) tail⟩
  · rw [if_neg hreturn]
    by_cases hfeed : c = lineFeed
    · subst hfeed
      exact ⟨n + 1, .loneFeed tail⟩
    · exact ⟨n, .kept hreturn hfeed tail⟩

/-- Reading a text once comes to what the correction makes of it. -/
theorem exists_scanned_fixLineEnds (t : Text) : ∃ n, Scanned t n (fixLineEnds t).2 := by
  -- The induction follows the replacement of pairs, which looks one code point ahead as the reading does.
  fun_induction Text.joinPairs t with
  | case1 => exact ⟨0, .done⟩
  | case2 c => exact Scanned.exists_cons (by simp) .done
  | case3 c d rest h ih =>
    obtain ⟨rfl, rfl⟩ := h
    obtain ⟨n, hn⟩ := ih
    rw [fixLineEnds_snd_pair]
    exact ⟨n + 1, .pair hn⟩
  | case4 c d rest h ih =>
    obtain ⟨n, hn⟩ := ih
    have hno : ¬ (c = carriageReturn ∧ (d :: rest).head? = some lineFeed) := by simpa using h
    rw [fixLineEnds_snd_cons hno]
    exact hn.exists_cons hno

/-- A text is read in one way only. -/
theorem Scanned.eq {t t' : Text} {n : Nat} (h : Scanned t n t') :
    t' = (fixLineEnds t).2 ∧ n = t'.count lineFeed := by
  induction h with
  | done => exact ⟨rfl, rfl⟩
  | pair tail ih => exact ⟨by rw [fixLineEnds_snd_pair, ih.1], by rw [List.count_cons_self, ih.2]⟩
  | loneReturn hlone tail ih =>
    refine ⟨?_, by rw [List.count_cons_self, ih.2]⟩
    rw [fixLineEnds_snd_cons fun h => hlone h.2, if_pos rfl, ih.1]
  | loneFeed tail ih =>
    refine ⟨?_, by rw [List.count_cons_self, ih.2]⟩
    have hfeed : lineFeed ≠ carriageReturn := by decide
    rw [fixLineEnds_snd_cons fun h => hfeed h.1, if_neg hfeed, ih.1]
  | kept hreturn hfeed tail ih =>
    refine ⟨?_, by rw [List.count_cons_of_ne hfeed, ih.2]⟩
    rw [fixLineEnds_snd_cons fun h => hreturn h.1, if_neg hreturn, ih.1]

/-- The correction of line ends agrees with one reading of the text: what it leaves is the text with one line feed for each
line break, and has as many line feeds as there are breaks and no carriage return. It reports one fix when there is a carriage
return in the text and nothing when there is none, and a second correction changes and reports nothing. -/
theorem fixLineEnds_agrees_with_one_scan (t : Text) :
    (∀ n t', Scanned t n t' ↔ t' = (fixLineEnds t).2 ∧ n = (fixLineEnds t).2.count lineFeed) ∧
      carriageReturn ∉ (fixLineEnds t).2 ∧
      (fixLineEnds t).1 =
        (if carriageReturn ∈ t then [⟨.fix, "contains non-system line-endings", none⟩] else []) ∧
      fixLineEnds (fixLineEnds t).2 = ([], (fixLineEnds t).2) := by
  have hnone : carriageReturn ∉ (fixLineEnds t).2 := carriageReturn_notMem_replaceReturns _
  have hnotices (t : Text) : (fixLineEnds t).1 =
      if carriageReturn ∈ t then [⟨.fix, "contains non-system line-endings", none⟩] else [] := by
    have hiff := fixLineEnds_snd_eq_self_iff t
    rw [fixLineEnds_snd] at hiff
    simp only [fixLineEnds, hiff, ite_not]
  refine ⟨fun n t' => ⟨fun h => ?_, ?_⟩, hnone, hnotices t, ?_⟩
  · obtain ⟨rfl, hn⟩ := h.eq
    exact ⟨rfl, hn⟩
  · rintro ⟨rfl, rfl⟩
    obtain ⟨n, hn⟩ := exists_scanned_fixLineEnds t
    exact hn.eq.2 ▸ hn
  · have hsame := (fixLineEnds_snd_eq_self_iff _).2 hnone
    have hsilent := hnotices (fixLineEnds t).2
    rw [if_neg hnone] at hsilent
    exact Prod.ext hsilent hsame

/-- Joining the pair leaves a new pair behind, and that is two breaks, as it was before. -/
example : (fixLineEnds "a\r\r\nb").2 = Text.ofString "a\n\nb" := by decide +kernel

end SourceTidy.Task
