import SourceTidy.Proofs.Task.TrailingBlanks

/-!
# Closing tags at the end of a source

A closing tag at the end of a source is taken away first, and then the trailing blanks are. Of a text the two corrections take
one closing tag and blanks, and nothing else (`Tidied`). What they leave ends with a closing tag again exactly when the text
ends with two of them that nothing but blanks keeps apart (`EndsInTwoTags`).
-/

namespace SourceTidy.Task

open Text (lineFeed carriageReturn)

/-! ## What trailing blanks may go -/

/-- `Tidied t t'`: to get `t'`, nothing but blanks is taken from `t`: those at its end, in the place of which one line end may
stand, and those directly before its line ends. -/
inductive Tidied : Text → Text → Prop where
  | blank {blanks : Text} (hblanks : ∀ c ∈ blanks, isEndBlank c = true) : Tidied blanks []
  | text {kept kept' blanks e : Text} (hblanks : ∀ c ∈ blanks, isEndBlank c = true) (hkept : Cleared kept kept')
      (he : IsLineEnd e) : Tidied (kept ++ blanks) (kept' ++ e)

theorem tidied_tidyBlanks (t : Text) : Tidied t (tidyBlanks t) := by
  rcases endBlank_or_split t with ht | ⟨front, d, blanks, rfl, hd, hblanks⟩
  · rw [tidyBlanks_of_endBlanks ht]
    exact .blank ht
  · have hcleared := cleared_stripLineBlanks (front ++ [d])
    rw [stripLineBlanks_append_cons hd, show stripLineBlanks [] = [] from rfl] at hcleared
    rw [tidyBlanks_append_cons hd front hblanks, List.append_cons front, List.append_cons (stripLineBlanks front)]
    exact .text hblanks hcleared (isLineEnd_firstLineEnd _)

/-! ## Closing tags -/

theorem body_append_closingTag (front : Text) {blanks : Text} (hblanks : ∀ c ∈ blanks, isEndBlank c = true) :
    body (front ++ closingTag ++ blanks) = front ++ closingTag := by
  have hlast : isEndBlank '>' = false := by decide
  have h := body_append_cons hlast (front ++ [('?' : CodePoint)]) hblanks
  rw [← List.append_cons, List.append_assoc] at h
  rw [List.append_assoc]
  exact h

/-- A text is its body and the blanks at its end. -/
theorem exists_body_append (t : Text) : ∃ blanks, t = body t ++ blanks ∧ ∀ c ∈ blanks, isEndBlank c = true := by
  rcases endBlank_or_split t with ht | ⟨front, d, blanks, rfl, hd, hblanks⟩
  · exact ⟨t, by rw [body_of_endBlanks ht, List.nil_append], ht⟩
  · exact ⟨blanks, by rw [body_append_cons hd front hblanks, ← List.append_cons], hblanks⟩

/-- The body of a text ends with a closing tag when only blanks follow one in the text. -/
theorem closingTag_suffix_body_iff (t : Text) :
    closingTag <:+ body t ↔ ∃ front blanks, t = front ++ closingTag ++ blanks ∧ ∀ c ∈ blanks, isEndBlank c = true := by
  constructor
  · rintro ⟨front, hfront⟩
    obtain ⟨blanks, ht, hblanks⟩ := exists_body_append t
    exact ⟨front, blanks, by rw [hfront, ← ht], hblanks⟩
  · rintro ⟨front, blanks, rfl, hblanks⟩
    rw [body_append_closingTag front hblanks]
    exact List.suffix_append front closingTag

theorem fixClosingTag_silent_iff (t : Text) : (fixClosingTag t).1 = [] ↔ ¬ closingTag <:+ body t := by
  rcases fixClosingTag_eq t with ⟨front, hfront, h⟩ | ⟨hno, h⟩
  · rw [h]
    exact iff_of_false (List.cons_ne_nil _ _) fun hno => hno ⟨front, hfront.symm⟩
  · rw [h]
    exact iff_of_true rfl hno

/-- A text that ends with two closing tags, with nothing but blanks between them and after them. -/
def EndsInTwoTags (t : Text) : Prop :=
  ∃ front between after, t = front ++ closingTag ++ between ++ closingTag ++ after ∧
    (∀ c ∈ between, isEndBlank c = true) ∧ ∀ c ∈ after, isEndBlank c = true

/-- The body of a text that ends with a closing tag has another one before it. -/
theorem endsInTwoTags_iff {t front : Text} (h : body t = front ++ closingTag) :
    EndsInTwoTags t ↔ closingTag <:+ body front := by
  rw [closingTag_suffix_body_iff]
  constructor
  · rintro ⟨before, between, after, rfl, hbetween, hafter⟩
    rw [body_append_closingTag _ hafter] at h
    exact ⟨before, between, (List.append_cancel_right h).symm, hbetween⟩
  · rintro ⟨before, between, rfl, hbetween⟩
    obtain ⟨after, ht, hafter⟩ := exists_body_append t
    exact ⟨before, between, after, by rw [← h, ← ht], hbetween, hafter⟩

/-- Taking a closing tag away and tidying what is left takes one closing tag that ends the text, if there is one, and nothing
but blanks besides: those after the tag, and those that tidying takes from the text before it. A closing tag is left behind,
so that another correction reports one, exactly when the text ends with two. -/
theorem closing_tag_is_left_iff (t : Text) :
    (∃ front tag after, t = front ++ tag ++ after ∧ (tag = [] ∨ tag = closingTag) ∧
        (∀ c ∈ after, isEndBlank c = true) ∧ Tidied front (fixTrailingBlanks (fixClosingTag t).2).2) ∧
      ((fixClosingTag (fixTrailingBlanks (fixClosingTag t).2).2).1 = [] ↔ ¬ EndsInTwoTags t) := by
  rw [fixTrailingBlanks_snd, fixClosingTag_silent_iff, closingTag_suffix_body_tidyBlanks_iff]
  rcases fixClosingTag_eq t with ⟨front, hfront, h⟩ | ⟨hno, h⟩
  · obtain ⟨after, ht, hafter⟩ := exists_body_append t
    have hbody : body t = front ++ closingTag := hfront
    rw [h, endsInTwoTags_iff hbody]
    rw [hbody] at ht
    exact ⟨⟨front, closingTag, after, ht, .inr rfl, hafter, tidied_tidyBlanks front⟩, Iff.rfl⟩
  · rw [h]
    refine ⟨⟨t, [], [], by simp, .inl rfl, by simp, tidied_tidyBlanks t⟩, iff_of_true hno ?_⟩
    rintro ⟨front, between, after, ht, -, hafter⟩
    exact hno ((closingTag_suffix_body_iff t).2 ⟨_, after, ht, hafter⟩)

/-- A source with two closing tags: the corrections take the second one, the first one ends what they leave, and another
correction takes that away too. -/
theorem closing_tag_is_left :
    (fixTrailingBlanks (fixClosingTag "<?php ?> ?>\n").2).2 = Text.ofString "<?php ?>\n" ∧
      fixClosingTag "<?php ?>\n" = ([⟨.fix, "contains closing PHP tag ?>", none⟩], Text.ofString "<?php ") ∧
      ¬ ∀ t, (fixClosingTag (fixTrailingBlanks (fixClosingTag t).2).2).1 = [] := by
  refine ⟨by decide +kernel, by decide +kernel, fun h => ?_⟩
  have := h "<?php ?> ?>\n"
  revert this
  decide +kernel

end SourceTidy.Task
