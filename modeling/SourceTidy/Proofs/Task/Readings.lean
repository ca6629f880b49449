import SourceTidy.Proofs.Task.Blanks
import SourceTidy.Proofs.Task.Builtin
import SourceTidy.Proofs.Text.Readings

/-!
# The answers of the tasks are read again from their bytes

Each correction takes code points away or puts some that are no surrogates in their place. What it takes away between two others
stood before the end of a line or is replaced by punctuation, so it brings no surrogates together. A text that was read from
bytes is therefore still one that is read from bytes after any tasks in any order (`answerAll_written_is_read_back`).
-/

namespace SourceTidy.Task

open Text (lineFeed carriageReturn)
open Utf8 (AddsNoRun IsReading)

/-! ## Byte order marks and closing tags -/

theorem addsNoRun_fixByteOrderMark (t : Text) : AddsNoRun t (fixByteOrderMark t).2 := by
  cases t with
  | nil => exact .refl []
  | cons c rest =>
    rw [fixByteOrderMark_cons]
    split
    · exact .of_part (List.suffix_cons c rest).isInfix
    · exact .refl _

theorem isPrefix_dropRightWhile (p : CodePoint → Bool) (t : Text) : Text.dropRightWhile p t <+: t := by
  rw [Text.dropRightWhile_eq_rdropWhile]
  exact List.rdropWhile_prefix p t

theorem addsNoRun_fixClosingTag (t : Text) : AddsNoRun t (fixClosingTag t).2 := by
  rcases fixClosingTag_eq t with ⟨body, hbody, h⟩ | ⟨-, h⟩
  · have hprefix : body <+: t := (List.prefix_append body closingTag).trans (hbody ▸ isPrefix_dropRightWhile isEndBlank t)
    rw [h]
    exact .of_part hprefix.isInfix
  · rw [h]
    exact .refl t

/-! ## Line ends -/

/-- A carriage return goes before a line feed, which is no surrogate. -/
theorem addsNoRun_joinPairs (front t : Text) : AddsNoRun (front ++ t) (front ++ t.joinPairs) := by
  fun_induction Text.joinPairs t generalizing front with
  | case1 => exact .refl _
  | case2 c => exact .refl _
  | case3 c d rest h ih =>
    obtain ⟨rfl, rfl⟩ := h
    have hsuffix : rest <:+ front ++ carriageReturn :: lineFeed :: rest :=
      (List.suffix_append [carriageReturn, lineFeed] rest).trans (List.suffix_append front _)
    exact .append_cons rfl (.of_part (List.prefix_append front _).isInfix)
      ((AddsNoRun.of_part hsuffix.isInfix).trans (ih []))
  | case4 c d rest h ih =>
    have := ih (front ++ [c])
    rwa [← List.append_cons, ← List.append_cons] at this

theorem addsNoRun_fixLineEnds (t : Text) : AddsNoRun t (fixLineEnds t).2 := by
  refine (addsNoRun_joinPairs [] t).trans (.map fun c _ => ?_)
  split
  · exact .inr rfl
  · exact .inl rfl

/-! ## Trailing blanks -/

/-- A line end is no surrogate. -/
theorem isSurrogate_of_mem_firstLineEnd {t : Text} : ∀ c ∈ firstLineEnd t, c.isSurrogate = false := by
  rcases firstLineEnd_eq t with h | ⟨h, -⟩ <;> rw [h] <;> decide

/-- Where a line ends ahead, a stripped text starts with the line end. -/
theorem stripLineBlanks_eq_cons {t : Text} (h : endsAhead t = true) :
    ∃ e rest, stripLineBlanks t = e :: rest ∧ (e = lineFeed ∨ e = carriageReturn) := by
  rcases blank_or_split t with ht | ⟨blanks, e, rest, rfl, hblanks, he⟩
  · rw [← List.append_nil t, endsAhead_blanks_append ht] at h
    cases h
  · rw [endsAhead_blanks_append hblanks] at h
    refine ⟨e, stripLineBlanks rest, ?_, ?_⟩
    · rw [stripLineBlanks_of_endsAhead hblanks h, stripLineBlanks_cons_of_not_blank he]
    · rw [endsAhead_cons_of_not_blank he] at h
      exact h.imp_right And.left

/-- A blank goes only where the line end is next that is left, and that is no surrogate. -/
theorem addsNoRun_stripLineBlanks (front t : Text) : AddsNoRun (front ++ t) (front ++ stripLineBlanks t) := by
  induction t generalizing front with
  | nil => exact .refl _
  | cons c t ih =>
    rw [stripLineBlanks_cons]
    split
    · rename_i hgone
      rw [Bool.and_eq_true] at hgone
      obtain ⟨e, rest, hstripped, he⟩ := stripLineBlanks_eq_cons hgone.2
      have hrest : AddsNoRun (front ++ c :: t) rest := by
        have hsuffix : t <:+ front ++ c :: t := (List.suffix_cons c t).trans (List.suffix_append front _)
        refine (AddsNoRun.of_part hsuffix.isInfix).trans ((ih []).trans (.of_part ?_))
        rw [List.nil_append, hstripped]
        exact (List.suffix_cons e rest).isInfix
      rw [hstripped]
      refine .append_cons ?_ (.of_part (List.prefix_append front _).isInfix) hrest
      rcases he with rfl | rfl <;> rfl
    · have := ih (front ++ [c])
      rwa [← List.append_cons, ← List.append_cons] at this

theorem addsNoRun_tidyBlanks (t : Text) : AddsNoRun t (tidyBlanks t) := by
  have hstripped : AddsNoRun t (stripLineBlanks t) := addsNoRun_stripLineBlanks [] t
  simp only [tidyBlanks]
  split
  · exact .of_part List.nil_infix
  · refine AddsNoRun.append_of_noSurrogate (hstripped.trans (.of_part ?_)) isSurrogate_of_mem_firstLineEnd
    exact (isPrefix_dropRightWhile isEndBlank _).isInfix

/-! ## Short arrays -/

/-- What an edit takes away gives place to a bracket. -/
theorem addsNoRun_applyAll {low high : Nat} {es : List Php.Edit} {t : Text} (h : Php.Between low es high)
    (ht : high ≤ t.length) (hes : ∀ e ∈ es, e.replacement.isSurrogate = false) : AddsNoRun t (Php.Edit.applyAll es t) := by
  induction h with
  | nil h => exact .refl t
  | @cons low high e es hlow hspan tail ih =>
    rw [List.forall_mem_cons] at hes
    obtain ⟨rest, hrest, happly⟩ := Php.Edit.applyAll_cons (.cons hlow hspan tail) ht
    rw [happly]
    refine .append_cons hes.1 (.of_part (List.take_prefix _ t).isInfix) ((ih ht hes.2).trans (.of_part ?_))
    rw [hrest]
    exact (List.suffix_append _ rest).isInfix

theorem addsNoRun_fixArrays (php : Php.Tokenizer) (t : Text) : AddsNoRun t (fixArrays (php.tokens t) t).2 := by
  obtain ⟨hbetween, hreplaces⟩ := Php.ShortArrays.edits_spec (php.tiles t)
  refine addsNoRun_applyAll hbetween (Nat.le_refl _) fun e he => ?_
  cases hreplaces e he <;> rfl

/-! ## All tasks -/

namespace Builtin

variable (php : Php.Tokenizer)

theorem addsNoRun_answer (b : Builtin) (c : Context) (t : Text) : AddsNoRun t ((b.taskWith php.tokens).answer c t) := by
  cases b with
  | byteOrderMark => exact addsNoRun_fixByteOrderMark t
  | shortArrays => exact addsNoRun_fixArrays php t
  | lineEnds => exact addsNoRun_fixLineEnds t
  | closingTag => exact addsNoRun_fixClosingTag t
  | trailingBlanks =>
    have hanswer : (trailingBlanks.taskWith php.tokens).answer c t = (fixTrailingBlanks t).2 := rfl
    rw [hanswer, fixTrailingBlanks_snd]
    exact addsNoRun_tidyBlanks t
  | _ =>
    rw [(of_correction?_eq_none rfl c t).1]
    exact .refl t

theorem addsNoRun_answerAll (c : Context) (bs : List Builtin) (t : Text) : AddsNoRun t (answerAll php c bs t) := by
  induction bs generalizing t with
  | nil => exact .refl t
  | cons b bs ih =>
    rw [answerAll_cons]
    exact (addsNoRun_answer php b c t).trans (ih _)

/-- Whatever the bytes of a file are, and whichever tasks answer their text one after the other, the text in the end can be
written, and what is written is read as that text. -/
theorem answerAll_written_is_read_back (c : Context) (bs : List Builtin) (bytes : Bytes) :
    ∃ written, Utf8.encode (answerAll php c bs (Utf8.decode bytes)) = .ok written ∧
      Utf8.decode written = answerAll php c bs (Utf8.decode bytes) :=
  ((Utf8.isReading_decode bytes).of_addsNoRun (addsNoRun_answerAll php c bs _)).encode

end Builtin
end SourceTidy.Task
