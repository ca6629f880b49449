import SourceTidy.Proofs.Php.ShortArrays
import SourceTidy.Proofs.Text.Strip

/-!
# What the corrections have in common

Each correction reports a fix when it changes the text, and only then (`Honest`). Four of the five make the bulk of a text
smaller, or take away its last carriage return, whenever they change it (`Settles`), and none of them undoes either. So
what one correction has changed is not changed back by the others.
-/

namespace SourceTidy

namespace Task

open Text (lineFeed carriageReturn bulk)

/-- A correction that reports a fix when it changes the text, and only then. -/
def Honest (fix : Text → List Notice × Text) : Prop :=
  ∀ t, (∃ n ∈ (fix t).1, n.level = .fix) ↔ (fix t).2 ≠ t

/-- A correction that reports nothing but fixes. -/
def OnlyFixes (fix : Text → List Notice × Text) : Prop := ∀ t, ∀ n ∈ (fix t).1, n.level = .fix

/-- A correction that, whenever it changes a text, makes its bulk smaller or takes away all of its carriage returns. -/
def Settles (fix : Text → List Notice × Text) : Prop :=
  ∀ t, (fix t).2 = t ∨ bulk (fix t).2 < bulk t ∨
    bulk (fix t).2 ≤ bulk t ∧ carriageReturn ∈ t ∧ carriageReturn ∉ (fix t).2

/-- A correction that brings no carriage return into a text without one. -/
def KeepsOut (fix : Text → List Notice × Text) : Prop := ∀ t, carriageReturn ∉ t → carriageReturn ∉ (fix t).2

/-! ## Byte order marks -/

theorem fixByteOrderMark_cons (c : CodePoint) (rest : Text) :
    fixByteOrderMark (c :: rest) = if c = byteOrderMark then ([⟨.fix, "contains BOM", none⟩], rest) else ([], c :: rest) :=
  rfl

theorem honest_fixByteOrderMark : Honest fixByteOrderMark := by
  intro t
  cases t with
  | nil => simp [fixByteOrderMark]
  | cons c rest =>
    rw [fixByteOrderMark_cons]
    split
    · simp
    · simp

theorem onlyFixes_fixByteOrderMark : OnlyFixes fixByteOrderMark := by
  intro t n hn
  cases t with
  | nil => cases hn
  | cons c rest =>
    rw [fixByteOrderMark_cons] at hn
    split at hn
    · rw [List.mem_singleton.1 hn]
    · cases hn

theorem settles_fixByteOrderMark : Settles fixByteOrderMark := by
  intro t
  cases t with
  | nil => exact .inl rfl
  | cons c rest =>
    rw [fixByteOrderMark_cons]
    split
    · subst c
      right; left
      rw [Text.bulk_cons]
      have hone : bulk [byteOrderMark] = 1 := by decide
      simp only [hone]
      omega
    · exact .inl rfl

theorem keepsOut_fixByteOrderMark : KeepsOut fixByteOrderMark := by
  intro t ht
  cases t with
  | nil => exact ht
  | cons c rest =>
    rw [fixByteOrderMark_cons]
    split
    · exact fun h => ht (List.mem_cons_of_mem c h)
    · exact ht

/-! ## Short arrays -/

theorem honest_fixArrays (php : Php.Tokenizer) : Honest fun t => fixArrays (php.tokens t) t := by
  intro t
  rcases fixArrays_spec (php.tiles t) with h | ⟨hne, hlt⟩
  · simp only [h]
    simp
  · obtain ⟨n, hn⟩ := List.exists_mem_of_ne_nil _ hne
    refine iff_of_true ⟨n, hn, level_of_mem_shortArrayNotices hn⟩ fun heq => ?_
    simp only at heq
    rw [heq] at hlt
    exact Nat.lt_irrefl _ hlt

theorem onlyFixes_fixArrays (tokens : Text → List Php.Token) : OnlyFixes fun t => fixArrays (tokens t) t :=
  fun _ _ => level_of_mem_shortArrayNotices

theorem settles_fixArrays (php : Php.Tokenizer) : Settles fun t => fixArrays (php.tokens t) t := by
  intro t
  rcases fixArrays_spec (php.tiles t) with h | ⟨-, hlt⟩
  · left
    simp only [h]
  · exact .inr (.inl hlt)

theorem keepsOut_fixArrays (php : Php.Tokenizer) : KeepsOut fun t => fixArrays (php.tokens t) t := by
  intro t ht h
  rcases Php.Edit.mem_applyAll h with h | ⟨e, he, heq⟩
  · exact ht h
  · obtain ⟨-, hreplaces⟩ := Php.ShortArrays.edits_spec (php.tiles t)
    cases hreplaces e he with
    | opening => exact absurd (show ('[' : CodePoint) = carriageReturn from heq) (by decide)
    | closing => exact absurd (show (']' : CodePoint) = carriageReturn from heq) (by decide)

/-! ## Line ends -/

theorem joinPairs_sublist (t : Text) : t.joinPairs.Sublist t := by
  fun_induction Text.joinPairs t with
  | case1 => exact .refl []
  | case2 c => exact .refl [c]
  | case3 c d rest h ih => exact (ih.cons_cons d).cons c
  | case4 c d rest h ih => exact ih.cons_cons c

theorem joinPairs_of_notMem {t : Text} (ht : carriageReturn ∉ t) : t.joinPairs = t := by
  fun_induction Text.joinPairs t with
  | case1 => rfl
  | case2 c => rfl
  | case3 c d rest h ih => exact absurd (h.1 ▸ List.mem_cons_self) ht
  | case4 c d rest h ih => rw [ih fun hmem => ht (List.mem_cons_of_mem c hmem)]

theorem replaceReturns_of_notMem {t : Text} (ht : carriageReturn ∉ t) : replaceReturns t = t := by
  refine (List.map_congr_left fun c hc => ?_).trans (List.map_id t)
  rw [if_neg]
  · rfl
  · rintro rfl
    exact ht hc

theorem carriageReturn_notMem_replaceReturns (t : Text) : carriageReturn ∉ replaceReturns t := by
  intro h
  obtain ⟨c, -, hc⟩ := List.mem_map.1 h
  split at hc
  · exact absurd hc (by decide)
  · contradiction

theorem bulk_replaceReturns (t : Text) : bulk (replaceReturns t) = bulk t := by
  unfold bulk replaceReturns
  rw [List.countP_map]
  refine List.countP_congr fun c _ => ?_
  by_cases hc : c = carriageReturn <;> simp [hc]

theorem fixLineEnds_snd (t : Text) : (fixLineEnds t).2 = replaceReturns t.joinPairs := rfl

/-- A text is left alone exactly when it has no carriage return. -/
theorem fixLineEnds_snd_eq_self_iff (t : Text) : (fixLineEnds t).2 = t ↔ carriageReturn ∉ t := by
  constructor
  · intro h hmem
    rw [← h] at hmem
    exact carriageReturn_notMem_replaceReturns _ hmem
  · intro h
    rw [fixLineEnds_snd, joinPairs_of_notMem h, replaceReturns_of_notMem h]

theorem honest_fixLineEnds : Honest fixLineEnds := by
  intro t
  simp only [fixLineEnds]
  split
  · rename_i h
    simp [h]
  · rename_i h
    simp [h]

theorem onlyFixes_fixLineEnds : OnlyFixes fixLineEnds := by
  intro t n hn
  simp only [fixLineEnds] at hn
  split at hn
  · cases hn
  · rw [List.mem_singleton.1 hn]

theorem settles_fixLineEnds : Settles fixLineEnds := by
  intro t
  by_cases ht : carriageReturn ∈ t
  · refine .inr (.inr ⟨?_, ht, carriageReturn_notMem_replaceReturns _⟩)
    exact (bulk_replaceReturns _).trans_le (Text.bulk_le_of_sublist (joinPairs_sublist t))
  · exact .inl ((fixLineEnds_snd_eq_self_iff t).2 ht)

theorem keepsOut_fixLineEnds : KeepsOut fixLineEnds := fun _ _ => carriageReturn_notMem_replaceReturns _

/-! ## Closing tags -/

/-- A closing tag at the end of a text, with what comes before it and after it. -/
theorem fixClosingTag_eq (t : Text) :
    (∃ body, Text.dropRightWhile isEndBlank t = body ++ closingTag ∧
      fixClosingTag t = ([⟨.fix, "contains closing PHP tag ?>", none⟩], body)) ∨
    ¬ closingTag <:+ Text.dropRightWhile isEndBlank t ∧ fixClosingTag t = ([], t) := by
  unfold fixClosingTag
  simp only
  split
  · rename_i h
    left
    obtain ⟨body, hbody⟩ := List.isSuffixOf_iff_suffix.1 h
    refine ⟨body, hbody.symm, ?_⟩
    rw [← hbody, List.length_append, Nat.add_sub_cancel, List.take_left]
  · rename_i h
    exact .inr ⟨fun hsuffix => h (List.isSuffixOf_iff_suffix.2 hsuffix), rfl⟩

theorem bulk_lt_of_closingTag {t body : Text} (h : Text.dropRightWhile isEndBlank t = body ++ closingTag) :
    bulk body < bulk t := by
  have hle := Text.bulk_le_of_sublist (Text.dropRightWhile_sublist isEndBlank t)
  have htwo : bulk closingTag = 2 := by decide
  rw [h, Text.bulk_append, htwo] at hle
  omega

theorem honest_fixClosingTag : Honest fixClosingTag := by
  intro t
  rcases fixClosingTag_eq t with ⟨body, hbody, h⟩ | ⟨-, h⟩
  · rw [h]
    refine iff_of_true ⟨_, List.mem_cons_self, rfl⟩ ?_
    rintro rfl
    exact Nat.lt_irrefl _ (bulk_lt_of_closingTag hbody)
  · rw [h]
    simp

theorem onlyFixes_fixClosingTag : OnlyFixes fixClosingTag := by
  intro t n hn
  rcases fixClosingTag_eq t with ⟨body, -, h⟩ | ⟨-, h⟩
  · rw [h] at hn
    rw [List.mem_singleton.1 hn]
  · rw [h] at hn
    cases hn

theorem settles_fixClosingTag : Settles fixClosingTag := by
  intro t
  rcases fixClosingTag_eq t with ⟨body, hbody, h⟩ | ⟨-, h⟩
  · rw [h]
    exact .inr (.inl (bulk_lt_of_closingTag hbody))
  · rw [h]
    exact .inl rfl

theorem keepsOut_fixClosingTag : KeepsOut fixClosingTag := by
  intro t ht
  rcases fixClosingTag_eq t with ⟨body, hbody, h⟩ | ⟨-, h⟩
  · rw [h]
    intro hmem
    exact ht ((Text.dropRightWhile_sublist isEndBlank t).subset (hbody ▸ List.mem_append_left closingTag hmem))
  · rw [h]
    exact ht

/-! ## Trailing blanks -/

theorem stripLineBlanks_sublist (t : Text) : (stripLineBlanks t).Sublist t := by
  induction t with
  | nil => exact .refl []
  | cons c rest ih =>
    rw [stripLineBlanks]
    split
    · exact ih.cons c
    · exact ih.cons_cons c

/-- What a line end is made of. -/
theorem lineEnd?_eq_some {t e : Text} (h : lineEnd? t = some e) :
    e = [lineFeed] ∨ e = [carriageReturn, lineFeed] ∧ carriageReturn ∈ t := by
  unfold lineEnd? at h
  split at h
  · cases h
  · split at h
    · cases h
      exact .inl rfl
    · cases h
  · split at h
    · cases h
      exact .inl rfl
    · split at h
      · rename_i hpair
        cases h
        exact .inr ⟨rfl, hpair.1 ▸ List.mem_cons_self⟩
      · cases h

theorem firstLineEnd_eq (t : Text) :
    firstLineEnd t = [lineFeed] ∨ firstLineEnd t = [carriageReturn, lineFeed] ∧ carriageReturn ∈ t := by
  induction t with
  | nil => exact .inl rfl
  | cons c rest ih =>
    rw [firstLineEnd]
    cases h : lineEnd? (c :: rest) with
    | some e => exact lineEnd?_eq_some h
    | none =>
      rcases ih with ih | ⟨ih, hmem⟩
      · exact .inl ih
      · exact .inr ⟨ih, List.mem_cons_of_mem c hmem⟩

theorem bulk_firstLineEnd (t : Text) : bulk (firstLineEnd t) = 0 := by
  rcases firstLineEnd_eq t with h | ⟨h, -⟩ <;> rw [h] <;> decide

theorem bulk_tidyBlanks_le (t : Text) : bulk (tidyBlanks t) ≤ bulk t := by
  have hbody := (Text.dropRightWhile_sublist isEndBlank _).trans (stripLineBlanks_sublist t)
  simp only [tidyBlanks]
  split
  · exact Nat.zero_le _
  · rw [Text.bulk_append, bulk_firstLineEnd, Nat.add_zero]
    exact Text.bulk_le_of_sublist hbody

theorem carriageReturn_notMem_tidyBlanks {t : Text} (ht : carriageReturn ∉ t) : carriageReturn ∉ tidyBlanks t := by
  have hstripped : carriageReturn ∉ stripLineBlanks t := fun h => ht ((stripLineBlanks_sublist t).subset h)
  simp only [tidyBlanks]
  split
  · exact List.not_mem_nil
  · rw [List.mem_append, not_or]
    refine ⟨fun h => hstripped ((Text.dropRightWhile_sublist isEndBlank _).subset h), ?_⟩
    rcases firstLineEnd_eq (stripLineBlanks t) with h | ⟨-, hmem⟩
    · rw [h]
      decide
    · exact absurd hmem hstripped

theorem fixTrailingBlanks_snd (t : Text) : (fixTrailingBlanks t).2 = tidyBlanks t := by
  simp only [fixTrailingBlanks]
  split
  · exact Eq.symm ‹_›
  · split <;> rfl

theorem onlyFixes_fixTrailingBlanks : OnlyFixes fixTrailingBlanks := by
  intro t n hn
  simp only [fixTrailingBlanks] at hn
  split at hn
  · cases hn
  · split at hn <;> rw [List.mem_singleton.1 hn]

theorem honest_fixTrailingBlanks : Honest fixTrailingBlanks := by
  intro t
  rw [fixTrailingBlanks_snd]
  simp only [fixTrailingBlanks]
  split
  · rename_i h
    simp [h]
  · rename_i h
    refine iff_of_true ?_ h
    split <;> exact ⟨_, List.mem_cons_self, rfl⟩

end Task
end SourceTidy
