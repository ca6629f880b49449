import Mathlib.Data.List.Chain
import SourceTidy.Proofs.Task.Fixers

/-!
# Trailing blanks

What the correction of trailing blanks leaves. A text falls into its body and the blanks at its end, and what is left is the
body without the blanks before its line ends, and one line end (`tidyBlanks_eq`). This is final unless a carriage return
stands between blanks before a line feed: it then becomes part of a line end only now, with blanks before it
(`tidyBlanks_tidyBlanks_iff`).
-/

namespace SourceTidy.Task

open Text (lineFeed carriageReturn)

/-! ## Line ends -/

/-- Whether a line ends at the head of a text, after blanks. -/
def endsAhead (t : Text) : Bool := (lineEnd? (t.dropWhile isLineBlank)).isSome

theorem stripLineBlanks_cons (c : CodePoint) (rest : Text) :
    stripLineBlanks (c :: rest) =
      if isLineBlank c && endsAhead rest then stripLineBlanks rest else c :: stripLineBlanks rest := rfl

theorem isSome_lineEnd?_cons (c : CodePoint) (rest : Text) :
    (lineEnd? (c :: rest)).isSome = true ↔ c = lineFeed ∨ c = carriageReturn ∧ rest.head? = some lineFeed := by
  cases rest with
  | nil => by_cases hc : c = lineFeed <;> simp [lineEnd?, hc]
  | cons d rest =>
    rw [List.head?_cons, Option.some.injEq, lineEnd?]
    by_cases hc : c = lineFeed
    · simp [hc]
    · by_cases hr : c = carriageReturn ∧ d = lineFeed
      · rw [if_neg hc, if_pos hr]
        simp [hr]
      · simp [hc, hr]

theorem endsAhead_cons_of_blank {c : CodePoint} (hc : isLineBlank c = true) (rest : Text) :
    endsAhead (c :: rest) = endsAhead rest := by
  rw [endsAhead, List.dropWhile_cons_of_pos hc, endsAhead]

theorem endsAhead_cons_of_not_blank {c : CodePoint} (hc : isLineBlank c = false) (rest : Text) :
    endsAhead (c :: rest) = true ↔ c = lineFeed ∨ c = carriageReturn ∧ rest.head? = some lineFeed := by
  rw [endsAhead, List.dropWhile_cons_of_neg (by simp [hc]), isSome_lineEnd?_cons]

theorem endsAhead_blanks_append {blanks : Text} (hblanks : ∀ c ∈ blanks, isLineBlank c = true) (rest : Text) :
    endsAhead (blanks ++ rest) = endsAhead rest := by
  rw [endsAhead, List.dropWhile_append_of_pos hblanks, endsAhead]

/-- A text that starts with no line end, blanks aside, does not make one in the text before it either, unless it starts with
a line feed. -/
theorem endsAhead_append {t' : Text} (hends : endsAhead t' = false) (hfeed : t'.head? ≠ some lineFeed) (t : Text) :
    endsAhead (t ++ t') = endsAhead t := by
  induction t with
  | nil => exact hends
  | cons c t ih =>
    cases hc : isLineBlank c with
    | true => rw [List.cons_append, endsAhead_cons_of_blank hc, endsAhead_cons_of_blank hc, ih]
    | false =>
      rw [List.cons_append, Bool.eq_iff_iff, endsAhead_cons_of_not_blank hc, endsAhead_cons_of_not_blank hc]
      cases t with
      | nil => simp [hfeed]
      | cons d t => rfl

/-- What is not taken away at the end of a file is neither a blank nor part of a line end. -/
theorem of_isEndBlank_eq_false {d : CodePoint} (hd : isEndBlank d = false) :
    isLineBlank d = false ∧ d ≠ lineFeed ∧ d ≠ carriageReturn := by
  simp only [isEndBlank, Bool.or_eq_false_iff, beq_eq_false_iff_ne] at hd
  obtain ⟨⟨⟨⟨⟨hspace, htab⟩, hreturn⟩, hfeed⟩, -⟩, -⟩ := hd
  exact ⟨by simp [isLineBlank, hspace, htab], hfeed, hreturn⟩

/-! ## Stripping -/

/-- Such a text is stripped on its own. -/
theorem stripLineBlanks_append {t' : Text} (hends : endsAhead t' = false) (hfeed : t'.head? ≠ some lineFeed) (t : Text) :
    stripLineBlanks (t ++ t') = stripLineBlanks t ++ stripLineBlanks t' := by
  induction t with
  | nil => rfl
  | cons c t ih =>
    rw [List.cons_append, stripLineBlanks_cons, stripLineBlanks_cons, endsAhead_append hends hfeed, ih]
    split <;> rfl

theorem stripLineBlanks_cons_of_not_blank {c : CodePoint} (hc : isLineBlank c = false) (rest : Text) :
    stripLineBlanks (c :: rest) = c :: stripLineBlanks rest := by
  rw [stripLineBlanks_cons, hc]
  rfl

/-- What is not taken away at the end of a file cuts a text in two that are stripped on their own. -/
theorem stripLineBlanks_append_cons {d : CodePoint} (hd : isEndBlank d = false) (t rest : Text) :
    stripLineBlanks (t ++ d :: rest) = stripLineBlanks t ++ d :: stripLineBlanks rest := by
  obtain ⟨hblank, hfeed, hreturn⟩ := of_isEndBlank_eq_false hd
  have hends : endsAhead (d :: rest) = false := by
    rw [← Bool.not_eq_true, endsAhead_cons_of_not_blank hblank]
    simp [hfeed, hreturn]
  rw [stripLineBlanks_append hends (by simpa using hfeed), stripLineBlanks_cons_of_not_blank hblank]

/-- A text with one more code point is stripped up to it. -/
theorem stripLineBlanks_concat {b : CodePoint} (hb : b ≠ lineFeed) (t : Text) :
    stripLineBlanks (t ++ [b]) = stripLineBlanks t ++ [b] := by
  have hends : endsAhead [b] = false := by
    cases hblank : isLineBlank b with
    | true => rw [endsAhead_cons_of_blank hblank]; rfl
    | false =>
      rw [← Bool.not_eq_true, endsAhead_cons_of_not_blank hblank]
      simp [hb]
  have hone : stripLineBlanks [b] = [b] := by
    rw [stripLineBlanks_cons, show endsAhead [] = false from rfl, Bool.and_false]
    rfl
  rw [stripLineBlanks_append hends (by simpa using hb), hone]

/-- Blanks before a line end go. -/
theorem stripLineBlanks_of_endsAhead {blanks : Text} (hblanks : ∀ c ∈ blanks, isLineBlank c = true) {rest : Text}
    (hends : endsAhead rest = true) : stripLineBlanks (blanks ++ rest) = stripLineBlanks rest := by
  induction blanks with
  | nil => rfl
  | cons c blanks ih =>
    obtain ⟨hc, hblanks⟩ := List.forall_mem_cons.1 hblanks
    have hahead : endsAhead (blanks ++ rest) = true := by rw [endsAhead_blanks_append hblanks, hends]
    rw [List.cons_append, stripLineBlanks_cons, hc, hahead]
    exact ih hblanks

/-- Blanks before anything else stay. -/
theorem stripLineBlanks_of_not_endsAhead {blanks : Text} (hblanks : ∀ c ∈ blanks, isLineBlank c = true) {rest : Text}
    (hends : endsAhead rest = false) : stripLineBlanks (blanks ++ rest) = blanks ++ stripLineBlanks rest := by
  induction blanks with
  | nil => rfl
  | cons c blanks ih =>
    obtain ⟨hc, hblanks⟩ := List.forall_mem_cons.1 hblanks
    have hahead : endsAhead (blanks ++ rest) = false := by rw [endsAhead_blanks_append hblanks, hends]
    rw [List.cons_append, stripLineBlanks_cons, hahead, Bool.and_false, ih hblanks]
    rfl

/-- A text is blank, or has a first code point that is no blank. -/
theorem blank_or_split (t : Text) :
    (∀ c ∈ t, isLineBlank c = true) ∨
      ∃ blanks e rest, t = blanks ++ e :: rest ∧ (∀ c ∈ blanks, isLineBlank c = true) ∧ isLineBlank e = false := by
  induction t with
  | nil => exact .inl (by simp)
  | cons c t ih =>
    cases hc : isLineBlank c with
    | false => exact .inr ⟨[], c, t, rfl, by simp, hc⟩
    | true =>
      rcases ih with ht | ⟨blanks, e, rest, rfl, hblanks, he⟩
      · exact .inl (List.forall_mem_cons.2 ⟨hc, ht⟩)
      · exact .inr ⟨c :: blanks, e, rest, rfl, List.forall_mem_cons.2 ⟨hc, hblanks⟩, he⟩

/-- A stripped text starts as the text does, or with the line end before which its blanks are gone. -/
theorem head?_stripLineBlanks (t : Text) :
    (stripLineBlanks t).head? = t.head? ∨
      ∃ blanks e rest, t = blanks ++ e :: rest ∧ blanks ≠ [] ∧ (∀ c ∈ blanks, isLineBlank c = true) ∧
        (lineEnd? (e :: rest)).isSome = true ∧ (stripLineBlanks t).head? = some e := by
  rcases blank_or_split t with ht | ⟨blanks, e, rest, rfl, hblanks, he⟩
  · left
    rw [← List.append_nil t, stripLineBlanks_of_not_endsAhead ht rfl]
    rfl
  · cases hends : endsAhead (e :: rest) with
    | false =>
      left
      rw [stripLineBlanks_of_not_endsAhead hblanks hends, stripLineBlanks_cons_of_not_blank he]
      cases blanks <;> rfl
    | true =>
      rw [stripLineBlanks_of_endsAhead hblanks hends, stripLineBlanks_cons_of_not_blank he]
      cases blanks with
      | nil => exact .inl rfl
      | cons b blanks =>
        rw [endsAhead_cons_of_not_blank he, ← isSome_lineEnd?_cons] at hends
        exact .inr ⟨b :: blanks, e, rest, rfl, by simp, hblanks, hends, rfl⟩

/-- What is neither a blank nor part of a line end stands at the start of a stripped text when it does at the start of the
text. -/
theorem head?_stripLineBlanks_eq_iff {d : CodePoint} (hd : isEndBlank d = false) (t : Text) :
    (stripLineBlanks t).head? = some d ↔ t.head? = some d := by
  obtain ⟨hblank, hfeed, hreturn⟩ := of_isEndBlank_eq_false hd
  rcases head?_stripLineBlanks t with h | ⟨blanks, e, rest, rfl, hne, hblanks, hend, h⟩
  · rw [h]
  · obtain ⟨b, blanks, rfl⟩ := List.exists_cons_of_ne_nil hne
    rw [isSome_lineEnd?_cons] at hend
    rw [h]
    refine iff_of_false ?_ ?_
    · rintro ⟨⟩
      rcases hend with rfl | ⟨rfl, -⟩
      · exact hfeed rfl
      · exact hreturn rfl
    · rintro ⟨⟩
      rw [hblanks d List.mem_cons_self] at hblank
      cases hblank

/-- The last code point of a text stays. -/
theorem getLast?_stripLineBlanks (t : Text) : (stripLineBlanks t).getLast? = t.getLast? := by
  induction t with
  | nil => rfl
  | cons c rest ih =>
    cases rest with
    | nil =>
      rw [stripLineBlanks_cons, show endsAhead [] = false from rfl, Bool.and_false]
      rfl
    | cons d rest =>
      have hne : stripLineBlanks (d :: rest) ≠ [] := by
        intro hnil
        rw [hnil, List.getLast?_nil, eq_comm, List.getLast?_eq_none_iff] at ih
        cases ih
      rw [stripLineBlanks_cons]
      split
      · rw [ih, List.getLast?_cons_cons]
      · obtain ⟨e, m, hm⟩ := List.exists_cons_of_ne_nil hne
        rw [hm, List.getLast?_cons_cons, ← hm, ih, List.getLast?_cons_cons]

/-! ## What is stripped twice -/

/-- A text in which a carriage return after a blank is kept from a line feed by nothing but blanks. -/
def HidesLineEnd (t : Text) : Prop :=
  ∃ front b blanks rest, t = front ++ b :: carriageReturn :: (blanks ++ lineFeed :: rest) ∧ isLineBlank b = true ∧
    blanks ≠ [] ∧ ∀ c ∈ blanks, isLineBlank c = true

theorem HidesLineEnd.append {t : Text} (h : HidesLineEnd t) (front : Text) : HidesLineEnd (front ++ t) := by
  obtain ⟨front', b, blanks, rest, rfl, h⟩ := h
  exact ⟨front ++ front', b, blanks, rest, by simp, h⟩

/-- In a text that is not changed by stripping, no blank stands before a line end. -/
theorem endsAhead_of_steady {front rest : Text} {b : CodePoint} (hb : isLineBlank b = true)
    (h : stripLineBlanks (front ++ b :: rest) = front ++ b :: rest) : endsAhead rest = false := by
  have hlength (t : Text) : (stripLineBlanks t).length ≤ t.length := (stripLineBlanks_sublist t).length_le
  induction front with
  | nil =>
    rw [List.nil_append, stripLineBlanks_cons, hb, Bool.true_and] at h
    by_contra hends
    rw [Bool.not_eq_false] at hends
    have := congrArg List.length h
    rw [if_pos hends, List.length_cons] at this
    exact absurd (hlength rest) (by omega)
  | cons c front ih =>
    rw [List.cons_append, stripLineBlanks_cons] at h
    split at h
    · have := congrArg List.length h
      rw [List.length_cons] at this
      exact absurd (hlength (front ++ b :: rest)) (by omega)
    · exact ih (List.cons.inj h).2

/-- A line end that stripping makes out of what was none: a carriage return and a line feed, with blanks between them that
are gone. -/
theorem endsAhead_of_stripped {t : Text} (h : endsAhead (stripLineBlanks t) = true) :
    endsAhead t = true ∨ ∃ before blanks rest, t = before ++ carriageReturn :: (blanks ++ lineFeed :: rest) ∧
      (∀ c ∈ before, isLineBlank c = true) ∧ blanks ≠ [] ∧ ∀ c ∈ blanks, isLineBlank c = true := by
  rcases blank_or_split t with ht | ⟨before, e, m, rfl, hbefore, he⟩
  · rw [← List.append_nil t, stripLineBlanks_of_not_endsAhead ht rfl, endsAhead_blanks_append ht] at h
    cases h
  · rw [endsAhead_blanks_append hbefore]
    cases hends : endsAhead (e :: m) with
    | true => exact .inl rfl
    | false =>
      right
      rw [stripLineBlanks_of_not_endsAhead hbefore hends, endsAhead_blanks_append hbefore,
        stripLineBlanks_cons_of_not_blank he, endsAhead_cons_of_not_blank he] at h
      rw [← Bool.not_eq_true, endsAhead_cons_of_not_blank he, not_or, not_and] at hends
      obtain ⟨rfl, hhead⟩ := h.resolve_left hends.1
      rcases head?_stripLineBlanks m with hm | ⟨blanks, f, rest, rfl, hne, hblanks, -, hf⟩
      · rw [hm] at hhead
        exact absurd hhead (hends.2 rfl)
      · rw [hf] at hhead
        cases hhead
        exact ⟨before, blanks, rest, rfl, hbefore, hne, hblanks⟩

/-- Stripping twice does more than stripping once exactly when a line end is hidden by blanks. -/
theorem stripLineBlanks_stripLineBlanks_iff (t : Text) :
    stripLineBlanks (stripLineBlanks t) = stripLineBlanks t ↔ ¬ HidesLineEnd t := by
  constructor
  · rintro h ⟨front, b, blanks, rest, rfl, hb, hne, hblanks⟩
    obtain ⟨d, blanks, rfl⟩ := List.exists_cons_of_ne_nil hne
    have hd := hblanks d List.mem_cons_self
    have hfeed : d ≠ lineFeed := by
      rintro rfl
      cases hd
    have hends : endsAhead (carriageReturn :: (d :: blanks ++ lineFeed :: rest)) = false := by
      rw [← Bool.not_eq_true, endsAhead_cons_of_not_blank rfl]
      simp [hfeed, show carriageReturn ≠ lineFeed by decide]
    have hstrip : stripLineBlanks (front ++ b :: carriageReturn :: (d :: blanks ++ lineFeed :: rest)) =
        stripLineBlanks front ++ b :: carriageReturn :: lineFeed :: stripLineBlanks rest := by
      have hb' : b ≠ lineFeed := by
        rintro rfl
        cases hb
      have hreturn : (carriageReturn :: (d :: blanks ++ lineFeed :: rest)).head? ≠ some lineFeed := by
        simp [show carriageReturn ≠ lineFeed by decide]
      have hend : endsAhead (lineFeed :: rest) = true := (endsAhead_cons_of_not_blank rfl rest).2 (.inl rfl)
      rw [List.append_cons, stripLineBlanks_append hends hreturn, stripLineBlanks_concat hb',
        stripLineBlanks_cons_of_not_blank rfl, stripLineBlanks_of_endsAhead hblanks hend,
        stripLineBlanks_cons_of_not_blank rfl, List.append_assoc]
      rfl
    rw [hstrip] at h
    have := endsAhead_of_steady hb h
    cases this
  · intro h
    induction t with
    | nil => rfl
    | cons c t ih =>
      have ht := ih fun ht => h (ht.append [c])
      rw [stripLineBlanks_cons]
      split
      · exact ht
      · rename_i hkept
        rw [stripLineBlanks_cons, if_neg, ht]
        rw [Bool.and_eq_true]
        rintro ⟨hc, hends⟩
        rcases endsAhead_of_stripped hends with hends | ⟨before, blanks, rest, rfl, hbefore, hne, hblanks⟩
        · exact hkept (by rw [hc, hends]; rfl)
        · -- The last of the blanks before the carriage return, `c` among them, has the line end after it.
          obtain ⟨front, b, hfront⟩ := List.eq_nil_or_concat (c :: before) |>.resolve_left (by simp)
          refine h ⟨front, b, blanks, rest, ?_, ?_, hne, hblanks⟩
          · rw [← List.cons_append, hfront]
            simp
          · have hmem : b ∈ c :: before := by rw [hfront]; simp
            rcases List.mem_cons.1 hmem with rfl | hb
            · exact hc
            · exact hbefore b hb

/-! ## The body of a text -/

/-- A text without the blanks at its end. -/
def body (t : Text) : Text := Text.dropRightWhile isEndBlank t

theorem body_append_cons {d : CodePoint} (hd : isEndBlank d = false) (front : Text) {blanks : Text}
    (hblanks : ∀ c ∈ blanks, isEndBlank c = true) : body (front ++ d :: blanks) = front ++ [d] := by
  induction blanks using List.reverseRecOn with
  | nil =>
    rw [body, Text.dropRightWhile_eq_rdropWhile, List.rdropWhile_concat_neg _ _ _ (by simp [hd])]
  | append_singleton blanks c ih =>
    obtain ⟨hblanks, hc⟩ := List.forall_mem_append.1 hblanks
    rw [body, Text.dropRightWhile_eq_rdropWhile, ← List.cons_append, ← List.append_assoc,
      List.rdropWhile_concat_pos _ _ _ (hc c List.mem_cons_self), ← Text.dropRightWhile_eq_rdropWhile]
    exact ih hblanks

theorem body_of_endBlanks {t : Text} (ht : ∀ c ∈ t, isEndBlank c = true) : body t = [] := by
  rw [body, Text.dropRightWhile_eq_rdropWhile, List.rdropWhile_eq_nil_iff]
  exact ht

/-- A text is blank to its end, or has a last code point that is not taken away there. -/
theorem endBlank_or_split (t : Text) :
    (∀ c ∈ t, isEndBlank c = true) ∨ ∃ front d blanks, t = front ++ d :: blanks ∧ isEndBlank d = false ∧
      ∀ c ∈ blanks, isEndBlank c = true := by
  induction t using List.reverseRecOn with
  | nil => exact .inl (by simp)
  | append_singleton t c ih =>
    cases hc : isEndBlank c with
    | false => exact .inr ⟨t, c, [], rfl, hc, by simp⟩
    | true =>
      rcases ih with ht | ⟨front, d, blanks, rfl, hd, hblanks⟩
      · exact .inl (List.forall_mem_append.2 ⟨ht, by simpa using hc⟩)
      · refine .inr ⟨front, d, blanks ++ [c], by simp, hd, List.forall_mem_append.2 ⟨hblanks, by simpa using hc⟩⟩

theorem isEndBlank_of_mem_stripLineBlanks {t : Text} (ht : ∀ c ∈ t, isEndBlank c = true) :
    ∀ c ∈ stripLineBlanks t, isEndBlank c = true := fun c hc => ht c ((stripLineBlanks_sublist t).subset hc)

theorem isEndBlank_of_mem_firstLineEnd {t : Text} : ∀ c ∈ firstLineEnd t, isEndBlank c = true := by
  rcases firstLineEnd_eq t with h | ⟨h, -⟩ <;> rw [h] <;> decide

theorem tab_notMem_firstLineEnd (t : Text) : Text.tab ∉ firstLineEnd t := by
  rcases firstLineEnd_eq t with h | ⟨h, -⟩ <;> rw [h] <;> decide

/-- A blank text is tidied to nothing. -/
theorem tidyBlanks_of_endBlanks {t : Text} (ht : ∀ c ∈ t, isEndBlank c = true) : tidyBlanks t = [] := by
  have hbody : Text.dropRightWhile isEndBlank (stripLineBlanks t) = [] :=
    body_of_endBlanks (isEndBlank_of_mem_stripLineBlanks ht)
  simp only [tidyBlanks, hbody]
  rfl

/-- Any other text is tidied to its body, stripped, and one line end. -/
theorem tidyBlanks_append_cons {d : CodePoint} (hd : isEndBlank d = false) (front : Text) {blanks : Text}
    (hblanks : ∀ c ∈ blanks, isEndBlank c = true) :
    tidyBlanks (front ++ d :: blanks) =
      stripLineBlanks front ++ d :: firstLineEnd (stripLineBlanks front ++ d :: stripLineBlanks blanks) := by
  have hbody : Text.dropRightWhile isEndBlank (stripLineBlanks front ++ d :: stripLineBlanks blanks) =
      stripLineBlanks front ++ [d] :=
    body_append_cons hd _ (isEndBlank_of_mem_stripLineBlanks hblanks)
  simp only [tidyBlanks, stripLineBlanks_append_cons hd, hbody]
  rw [if_neg (by simp), List.append_assoc]
  rfl

/-- Whether the first line end stands before what is not taken away at the end of a file does not depend on what follows. -/
theorem firstLineEnd_append_cons {d : CodePoint} (hd : isEndBlank d = false) (t : Text) :
    (∃ e, ∀ t', firstLineEnd (t ++ d :: t') = e) ∨ ∀ t', firstLineEnd (t ++ d :: t') = firstLineEnd t' := by
  obtain ⟨-, hfeed, hreturn⟩ := of_isEndBlank_eq_false hd
  induction t with
  | nil =>
    refine .inr fun t' => ?_
    have hnone : lineEnd? (d :: t') = none := by
      rw [← Option.not_isSome_iff_eq_none, isSome_lineEnd?_cons]
      simp [hfeed, hreturn]
    rw [List.nil_append, firstLineEnd, hnone, Option.getD_none]
  | cons c t ih =>
    have hsame (t' : Text) : lineEnd? (c :: (t ++ d :: t')) = lineEnd? (c :: (t ++ [d])) := by
      cases t <;> rfl
    cases hend : lineEnd? (c :: (t ++ [d])) with
    | some e =>
      left
      refine ⟨e, fun t' => ?_⟩
      rw [List.cons_append, firstLineEnd, hsame, hend, Option.getD_some]
    | none =>
      have hskip (t' : Text) : firstLineEnd (c :: t ++ d :: t') = firstLineEnd (t ++ d :: t') := by
        rw [List.cons_append, firstLineEnd, hsame, hend, Option.getD_none]
      simp only [hskip]
      exact ih

theorem firstLineEnd_firstLineEnd (t : Text) : firstLineEnd (firstLineEnd t) = firstLineEnd t := by
  rcases firstLineEnd_eq t with h | ⟨h, -⟩ <;> rw [h] <;> rfl

theorem stripLineBlanks_firstLineEnd (t : Text) : stripLineBlanks (firstLineEnd t) = firstLineEnd t := by
  rcases firstLineEnd_eq t with h | ⟨h, -⟩ <;> rw [h] <;> rfl

/-- The body of a tidied text is the body of the text, stripped. -/
theorem body_tidyBlanks (t : Text) : body (tidyBlanks t) = stripLineBlanks (body t) := by
  rcases endBlank_or_split t with ht | ⟨front, d, blanks, rfl, hd, hblanks⟩
  · rw [tidyBlanks_of_endBlanks ht, body_of_endBlanks ht]
    rfl
  · rw [tidyBlanks_append_cons hd front hblanks, body_append_cons hd _ isEndBlank_of_mem_firstLineEnd,
      body_append_cons hd front hblanks, stripLineBlanks_append_cons hd]
    rfl

/-- A tidied text is tidy, unless a line end is hidden in its body. -/
theorem tidyBlanks_tidyBlanks_iff (t : Text) : tidyBlanks (tidyBlanks t) = tidyBlanks t ↔ ¬ HidesLineEnd (body t) := by
  rw [← stripLineBlanks_stripLineBlanks_iff]
  constructor
  · intro h
    rw [← body_tidyBlanks t, ← body_tidyBlanks (tidyBlanks t), h]
  · rcases endBlank_or_split t with ht | ⟨front, d, blanks, rfl, hd, hblanks⟩
    · rw [tidyBlanks_of_endBlanks ht]
      exact fun _ => rfl
    · intro h
      rw [body_append_cons hd front hblanks, stripLineBlanks_append_cons hd, stripLineBlanks_append_cons hd] at h
      have hfront : stripLineBlanks (stripLineBlanks front) = stripLineBlanks front := List.append_cancel_right h
      rw [tidyBlanks_append_cons hd front hblanks, tidyBlanks_append_cons hd _ isEndBlank_of_mem_firstLineEnd, hfront,
        stripLineBlanks_firstLineEnd]
      rcases firstLineEnd_append_cons hd (stripLineBlanks front) with ⟨e, he⟩ | hskip
      · rw [he, he]
      · rw [hskip, hskip, firstLineEnd_firstLineEnd]

/-! ## What a tidied text starts and ends with -/

/-- What is taken away nowhere stands at the start of a tidied text when it does at the start of the body. -/
theorem head?_tidyBlanks_eq_iff {c : CodePoint} (hc : isEndBlank c = false) (t : Text) :
    (tidyBlanks t).head? = some c ↔ (body t).head? = some c := by
  rcases endBlank_or_split t with ht | ⟨front, d, blanks, rfl, hd, hblanks⟩
  · rw [tidyBlanks_of_endBlanks ht, body_of_endBlanks ht]
  · have hhead := head?_stripLineBlanks_eq_iff hc (front ++ [d])
    rw [stripLineBlanks_append_cons hd] at hhead
    rw [tidyBlanks_append_cons hd front hblanks, body_append_cons hd front hblanks, ← hhead]
    cases stripLineBlanks front <;> rfl

/-- Two code points that are taken away nowhere end a stripped text when they end the text. -/
theorem suffix_stripLineBlanks_iff {c d : CodePoint} (hc : isEndBlank c = false) (hd : isEndBlank d = false) (t : Text) :
    [c, d] <:+ stripLineBlanks t ↔ [c, d] <:+ t := by
  constructor
  · rintro ⟨s, hs⟩
    have hlast : t.getLast? = some d := by rw [← getLast?_stripLineBlanks, ← hs]; simp
    obtain ⟨t, rfl⟩ := List.getLast?_eq_some_iff.1 hlast
    rw [stripLineBlanks_append_cons hd, List.append_cons] at hs
    have hs' : s ++ [c] = stripLineBlanks t := List.append_cancel_right hs
    have hlast' : t.getLast? = some c := by rw [← getLast?_stripLineBlanks, ← hs']; simp
    obtain ⟨t, rfl⟩ := List.getLast?_eq_some_iff.1 hlast'
    exact ⟨t, by simp⟩
  · rintro ⟨s, rfl⟩
    rw [stripLineBlanks_append_cons hc, stripLineBlanks_cons_of_not_blank (of_isEndBlank_eq_false hd).1]
    exact List.suffix_append _ _

/-- Trailing blanks have no say in whether a closing tag ends a text. -/
theorem closingTag_suffix_body_tidyBlanks_iff (t : Text) :
    closingTag <:+ body (tidyBlanks t) ↔ closingTag <:+ body t := by
  rw [body_tidyBlanks]
  exact suffix_stripLineBlanks_iff (by decide) (by decide) _

/-- Every code point of a tidied text stands in the text, or is a line feed. -/
theorem mem_of_mem_tidyBlanks {c : CodePoint} {t : Text} (h : c ∈ tidyBlanks t) : c ∈ t ∨ c = lineFeed := by
  have hstripped {c : CodePoint} (h : c ∈ stripLineBlanks t) : c ∈ t := (stripLineBlanks_sublist t).subset h
  simp only [tidyBlanks] at h
  split at h
  · cases h
  · rcases List.mem_append.1 h with h | h
    · exact .inl (hstripped ((Text.dropRightWhile_sublist isEndBlank _).subset h))
    · rcases firstLineEnd_eq (stripLineBlanks t) with heq | ⟨heq, hreturn⟩
      · rw [heq] at h
        exact .inr (List.mem_singleton.1 h)
      · rw [heq, List.mem_cons, List.mem_singleton] at h
        rcases h with rfl | rfl
        · exact .inl (hstripped hreturn)
        · exact .inr rfl

/-! ## Tabs at the starts of lines -/

/-- No line of a text starts with a tab, reading on at a place that is or is not a line's start. -/
def NoTabbedLine (atStart : Bool) (t : Text) : Prop :=
  (atStart = true → t.head? ≠ some Text.tab) ∧ t.IsChain fun c d => ¬ (c = lineFeed ∧ d = Text.tab)

theorem firstLineFrom_startsWithTab_eq_none_iff (offset : Nat) (atStart : Bool) (t : Text) :
    firstLineFrom startsWithTab offset atStart t = none ↔ NoTabbedLine atStart t := by
  induction t generalizing offset atStart with
  | nil => simp [firstLineFrom, NoTabbedLine]
  | cons c t ih =>
    rw [firstLineFrom]
    by_cases h : (atStart && startsWithTab (c :: t)) = true
    · rw [if_pos h]
      simp only [startsWithTab, Bool.and_eq_true, beq_iff_eq] at h
      simp only [NoTabbedLine, reduceCtorEq, false_iff]
      exact fun hno => hno.1 h.1 h.2
    · rw [if_neg h, ih, NoTabbedLine, NoTabbedLine, List.isChain_cons]
      simp only [startsWithTab, Bool.and_eq_true, beq_iff_eq, not_and] at h ⊢
      constructor
      · rintro ⟨hhead, hchain⟩
        exact ⟨h, fun d hd hc htab => hhead hc (hd.trans (congrArg some htab)), hchain⟩
      · rintro ⟨-, hhead, hchain⟩
        exact ⟨fun hc hd => hhead _ hd hc rfl, hchain⟩

theorem noTabbedLine_stripLineBlanks {t : Text} (h : NoTabbedLine true t) : NoTabbedLine true (stripLineBlanks t) := by
  -- The head of a stripped text is a tab only if the text's is.
  have hhead (t : Text) (htab : (stripLineBlanks t).head? = some Text.tab) : t.head? = some Text.tab := by
    rcases head?_stripLineBlanks t with ht | ⟨blanks, e, rest, rfl, -, -, hend, he⟩
    · rwa [← ht]
    · rw [he] at htab
      cases htab
      rw [isSome_lineEnd?_cons] at hend
      exact absurd hend (by simp [show Text.tab ≠ lineFeed by decide, show Text.tab ≠ carriageReturn by decide])
  refine ⟨fun hstart htab => h.1 hstart (hhead t htab), ?_⟩
  have hchain := h.2
  clear h
  induction t with
  | nil => exact .nil
  | cons c t ih =>
    rw [List.isChain_cons] at hchain
    rw [stripLineBlanks_cons]
    split
    · exact ih hchain.2
    · refine List.isChain_cons.2 ⟨?_, ih hchain.2⟩
      rintro d hd ⟨rfl, rfl⟩
      exact hchain.1 Text.tab (hhead t hd) ⟨rfl, rfl⟩

theorem noTabbedLine_tidyBlanks {t : Text} (h : NoTabbedLine true t) : NoTabbedLine true (tidyBlanks t) := by
  rcases endBlank_or_split t with ht | ⟨front, d, blanks, rfl, hd, hblanks⟩
  · rw [tidyBlanks_of_endBlanks ht]
    exact ⟨by simp, .nil⟩
  · have hfront : NoTabbedLine true (front ++ [d]) := by
      obtain ⟨hstart, hchain⟩ := h
      rw [List.append_cons] at hchain
      refine ⟨fun hs htab => hstart hs ?_, hchain.left_of_append⟩
      cases front <;> exact htab
    obtain ⟨hstart, hchain⟩ := noTabbedLine_stripLineBlanks hfront
    rw [stripLineBlanks_append_cons hd] at hstart hchain
    rw [tidyBlanks_append_cons hd front hblanks]
    generalize stripLineBlanks front = stripped at hstart hchain ⊢
    refine ⟨fun hs htab => hstart hs ?_, ?_⟩
    · cases stripped <;> exact htab
    · rw [List.append_cons]
      refine List.isChain_append.2 ⟨hchain, ?_, ?_⟩
      · rcases firstLineEnd_eq (stripped ++ d :: stripLineBlanks blanks) with h | ⟨h, -⟩ <;> rw [h] <;> decide
      · rintro c - e he ⟨-, rfl⟩
        exact tab_notMem_firstLineEnd _ (List.mem_of_mem_head? he)

end SourceTidy.Task
