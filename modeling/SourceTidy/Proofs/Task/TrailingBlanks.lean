import SourceTidy.Proofs.Task.Blanks
import SourceTidy.Proofs.Text.RoundTrip

/-!
# What trailing blanks leave behind

What the correction of trailing blanks makes of a text, said of the text alone. It takes the longest runs of blanks that
stand directly before a line end (`Cleared`), puts one line end, the first of the text, in the place of the blanks at the end,
and tells how many bytes that takes (`fixTrailingBlanks_takes_blanks_only`). Nothing else changes (`filter_tidyBlanks`). The
result is final, with no blank before any of its line ends, unless blanks hide a line end of the body
(`fixTrailingBlanks_is_final_iff`).
-/

namespace SourceTidy.Task

open Text (lineFeed carriageReturn)

/-! ## Line ends and the blanks before them -/

/-- A line end: a line feed, with or without one carriage return before it. -/
def IsLineEnd (e : Text) : Prop := e = [lineFeed] ∨ e = [carriageReturn, lineFeed]

theorem IsLineEnd.ne_nil {e : Text} (h : IsLineEnd e) : e ≠ [] := by
  rcases h with rfl | rfl <;> exact List.cons_ne_nil _ _

theorem isLineEnd_firstLineEnd (t : Text) : IsLineEnd (firstLineEnd t) :=
  (firstLineEnd_eq t).imp_right And.left

theorem stripLineBlanks_lineEnd_append {e : Text} (he : IsLineEnd e) (t : Text) :
    stripLineBlanks (e ++ t) = e ++ stripLineBlanks t := by
  rcases he with rfl | rfl
  · exact stripLineBlanks_cons_of_not_blank rfl t
  · rw [List.cons_append, stripLineBlanks_cons_of_not_blank rfl, List.cons_append,
      stripLineBlanks_cons_of_not_blank rfl]
    rfl

theorem endsAhead_lineEnd_append {e : Text} (he : IsLineEnd e) (t : Text) : endsAhead (e ++ t) = true := by
  rcases he with rfl | rfl
  · exact (endsAhead_cons_of_not_blank rfl t).2 (.inl rfl)
  · exact (endsAhead_cons_of_not_blank rfl (lineFeed :: t)).2 (.inr ⟨rfl, rfl⟩)

/-- A line ends ahead when a line end stands behind some blanks. -/
theorem exists_lineEnd_of_endsAhead {t : Text} (h : endsAhead t = true) :
    ∃ blanks e rest, t = blanks ++ (e ++ rest) ∧ (∀ c ∈ blanks, isLineBlank c = true) ∧ IsLineEnd e := by
  rcases blank_or_split t with ht | ⟨blanks, c, rest, rfl, hblanks, hc⟩
  · rw [← List.append_nil t, endsAhead_blanks_append ht] at h
    cases h
  · rw [endsAhead_blanks_append hblanks, endsAhead_cons_of_not_blank hc] at h
    rcases h with rfl | ⟨rfl, hhead⟩
    · exact ⟨blanks, [lineFeed], rest, rfl, hblanks, .inl rfl⟩
    · obtain ⟨rest, rfl⟩ := List.head?_eq_some_iff.1 hhead
      exact ⟨blanks, [carriageReturn, lineFeed], rest, rfl, hblanks, .inr rfl⟩

theorem stripLineBlanks_of_blanks {blanks : Text} (hblanks : ∀ c ∈ blanks, isLineBlank c = true) :
    stripLineBlanks blanks = blanks := by
  have hstay := stripLineBlanks_of_not_endsAhead hblanks (show endsAhead [] = false from rfl)
  rwa [show stripLineBlanks [] = [] from rfl, List.append_nil] at hstay

/-- `Cleared t t'`: the text `t'` is `t` without the longest runs of blanks that stand directly before a line end, and with
all else. A run starts at the start of the text or behind something that is no blank. -/
inductive Cleared : Text → Text → Prop where
  /-- A run at the end of the text stays. -/
  | rest {blanks : Text} (hblanks : ∀ c ∈ blanks, isLineBlank c = true) : Cleared blanks blanks
  /-- A run before a line end goes. -/
  | gone {blanks e t t' : Text} (hblanks : ∀ c ∈ blanks, isLineBlank c = true) (he : IsLineEnd e) (ht : Cleared t t') :
      Cleared (blanks ++ (e ++ t)) (e ++ t')
  /-- A run before anything else stays. -/
  | kept {blanks t t' : Text} {c : CodePoint} (hblanks : ∀ c ∈ blanks, isLineBlank c = true)
      (hc : isLineBlank c = false) (hno : ∀ e, IsLineEnd e → ¬ e <+: c :: t) (ht : Cleared t t') :
      Cleared (blanks ++ c :: t) (blanks ++ c :: t')

/-- Where no line end starts at something that is no blank, none stands ahead. -/
theorem endsAhead_eq_false {c : CodePoint} {t : Text} (hc : isLineBlank c = false)
    (hno : ∀ e, IsLineEnd e → ¬ e <+: c :: t) : endsAhead (c :: t) = false := by
  rw [← Bool.not_eq_true, endsAhead_cons_of_not_blank hc]
  rintro (rfl | ⟨rfl, hhead⟩)
  · exact hno _ (.inl rfl) (List.prefix_append [lineFeed] t)
  · obtain ⟨rest, rfl⟩ := List.head?_eq_some_iff.1 hhead
    exact hno _ (.inr rfl) (List.prefix_append [carriageReturn, lineFeed] rest)

theorem Cleared.eq {t t' : Text} (h : Cleared t t') : t' = stripLineBlanks t := by
  induction h with
  | rest hblanks => exact (stripLineBlanks_of_blanks hblanks).symm
  | gone hblanks he _ ih =>
    rw [stripLineBlanks_of_endsAhead hblanks (endsAhead_lineEnd_append he _), stripLineBlanks_lineEnd_append he, ih]
  | kept hblanks hc hno _ ih =>
    rw [stripLineBlanks_of_not_endsAhead hblanks (endsAhead_eq_false hc hno), stripLineBlanks_cons_of_not_blank hc, ih]

/-- Stripping clears a text. -/
theorem cleared_stripLineBlanks (t : Text) : Cleared t (stripLineBlanks t) := by
  -- A run and what stands behind it are taken in one step, so what is left is shorter by any number of code points.
  induction hn : t.length using Nat.strong_induction_on generalizing t with
  | _ n ih =>
    cases hends : endsAhead t with
    | true =>
      obtain ⟨blanks, e, rest, rfl, hblanks, he⟩ := exists_lineEnd_of_endsAhead hends
      rw [stripLineBlanks_of_endsAhead hblanks (endsAhead_lineEnd_append he rest), stripLineBlanks_lineEnd_append he]
      have hpos := List.length_pos_iff.2 he.ne_nil
      rw [List.length_append, List.length_append] at hn
      exact .gone hblanks he (ih rest.length (by omega) rest rfl)
    | false =>
      rcases blank_or_split t with ht | ⟨blanks, c, rest, rfl, hblanks, hc⟩
      · rw [stripLineBlanks_of_blanks ht]
        exact .rest ht
      · rw [endsAhead_blanks_append hblanks] at hends
        rw [stripLineBlanks_of_not_endsAhead hblanks hends, stripLineBlanks_cons_of_not_blank hc]
        rw [List.length_append, List.length_cons] at hn
        refine .kept hblanks hc (fun e he => ?_) (ih rest.length (by omega) rest rfl)
        rintro ⟨rest', heq⟩
        rw [← heq, endsAhead_lineEnd_append he] at hends
        cases hends

/-- `IsFirstLineEnd e t`: `e` is the first line end of `t`, and a line feed if there is none. -/
def IsFirstLineEnd (e t : Text) : Prop :=
  (∃ front rest, t = front ++ (e ++ rest) ∧ IsLineEnd e ∧ lineFeed ∉ front ∧
      (e = [lineFeed] → front.getLast? ≠ some carriageReturn)) ∨
    lineFeed ∉ t ∧ e = [lineFeed]

theorem isFirstLineEnd_firstLineEnd (t : Text) : IsFirstLineEnd (firstLineEnd t) t := by
  induction t with
  | nil => exact .inr ⟨List.not_mem_nil, rfl⟩
  | cons c t ih =>
    cases hend : lineEnd? (c :: t) with
    | some e =>
      have hfirst : firstLineEnd (c :: t) = e := by rw [firstLineEnd, hend, Option.getD_some]
      rw [hfirst]
      have hsome := (isSome_lineEnd?_cons c t).1 (by rw [hend]; rfl)
      left
      by_cases hc : c = lineFeed
      · subst c
        obtain rfl : [lineFeed] = e := by
          cases t <;> simpa [lineEnd?] using hend
        exact ⟨[], t, rfl, .inl rfl, List.not_mem_nil, fun _ => by simp⟩
      · obtain ⟨rfl, hhead⟩ := hsome.resolve_left hc
        obtain ⟨rest, rfl⟩ := List.head?_eq_some_iff.1 hhead
        obtain rfl : [carriageReturn, lineFeed] = e := by simpa [lineEnd?, hc] using hend
        exact ⟨[], rest, rfl, .inr rfl, List.not_mem_nil, fun _ => by simp⟩
    | none =>
      have hfirst : firstLineEnd (c :: t) = firstLineEnd t := by rw [firstLineEnd, hend, Option.getD_none]
      have hno : ¬ (c = lineFeed ∨ c = carriageReturn ∧ t.head? = some lineFeed) := by
        rw [← isSome_lineEnd?_cons, hend]
        exact Bool.false_ne_true
      rw [not_or, not_and] at hno
      rw [hfirst]
      rcases ih with ⟨front, rest, heq, he, hfront, hlast⟩ | ⟨hfeed, he⟩
      · left
        refine ⟨c :: front, rest, congrArg (c :: ·) heq, he, ?_, fun hone => ?_⟩
        · rw [List.mem_cons, not_or]
          exact ⟨fun h => hno.1 h.symm, hfront⟩
        · cases front with
          | nil =>
            rw [List.getLast?_singleton, ne_eq, Option.some.injEq]
            refine fun hc => hno.2 hc ?_
            rw [heq, hone]
            rfl
          | cons d front =>
            rw [List.getLast?_cons_cons]
            exact hlast hone
      · right
        rw [List.mem_cons, not_or]
        exact ⟨⟨fun h => hno.1 h.symm, hfeed⟩, he⟩

/-! ## What stays -/

/-- Tidying takes and adds nothing but what may be taken away at the end of a file. -/
theorem filter_tidyBlanks (t : Text) :
    (tidyBlanks t).filter (fun c => !isEndBlank c) = t.filter fun c => !isEndBlank c := by
  have hnone {blanks : Text} (hblanks : ∀ c ∈ blanks, isEndBlank c = true) :
      blanks.filter (fun c => !isEndBlank c) = [] :=
    List.filter_eq_nil_iff.2 fun c hc => by simp [hblanks c hc]
  have hstrip (t : Text) : (stripLineBlanks t).filter (fun c => !isEndBlank c) = t.filter fun c => !isEndBlank c := by
    induction t with
    | nil => rfl
    | cons c t ih =>
      rw [stripLineBlanks_cons]
      split
      · rename_i hgone
        have hc : isEndBlank c = true := by
          simp only [isLineBlank, Bool.and_eq_true, Bool.or_eq_true] at hgone
          simp only [isEndBlank, Bool.or_eq_true]
          tauto
        rw [ih, List.filter_cons_of_neg (by simp [hc])]
      · rw [List.filter_cons, List.filter_cons, ih]
  rcases endBlank_or_split t with ht | ⟨front, d, blanks, rfl, hd, hblanks⟩
  · rw [tidyBlanks_of_endBlanks ht, hnone ht]
    rfl
  · rw [tidyBlanks_append_cons hd front hblanks, List.filter_append, List.filter_append, hstrip, List.filter_cons,
      List.filter_cons, hnone hblanks, hnone isEndBlank_of_mem_firstLineEnd]

/-- What may be taken away at the end of a file has one byte. -/
theorem length_bytesOf_of_isEndBlank {c : CodePoint} (hc : isEndBlank c = true) : (Utf8.bytesOf c).length = 1 := by
  have hlt : c.toNat < 0x80 := by
    simp only [isEndBlank, Bool.or_eq_true, beq_iff_eq] at hc
    rcases hc with ((((rfl | rfl) | rfl) | rfl) | hc) | hc
    · decide
    · decide
    · decide
    · decide
    · omega
    · omega
  rw [Utf8.bytesOf, if_pos hlt]
  rfl

/-- A text has as many more bytes than code points as it has without what may be taken away at the end of a file. -/
theorem size_add_length_filter (t : Text) :
    Utf8.size t + (t.filter fun c => !isEndBlank c).length =
      Utf8.size (t.filter fun c => !isEndBlank c) + t.length := by
  induction t with
  | nil => rfl
  | cons c t ih =>
    simp only [Utf8.size] at ih ⊢
    rw [List.flatMap_cons, List.length_append, List.length_cons]
    cases hc : isEndBlank c with
    | true =>
      rw [List.filter_cons_of_neg (by simp [hc]), length_bytesOf_of_isEndBlank hc]
      omega
    | false =>
      rw [List.filter_cons_of_pos (by simp [hc]), List.flatMap_cons, List.length_append, List.length_cons]
      omega

/-- Tidying takes as many bytes as code points. -/
theorem size_tidyBlanks (t : Text) :
    Utf8.size t + (tidyBlanks t).length = Utf8.size (tidyBlanks t) + t.length := by
  have h := size_add_length_filter t
  have h' := size_add_length_filter (tidyBlanks t)
  rw [filter_tidyBlanks] at h'
  omega

/-- A tidied text can be written when the text can, in as many bytes fewer as it has fewer code points. -/
theorem encode_tidyBlanks {t : Text} {bytes : Bytes} (h : Utf8.encode t = .ok bytes) :
    ∃ bytes', Utf8.encode (tidyBlanks t) = .ok bytes' ∧
      bytes.length + (tidyBlanks t).length = bytes'.length + t.length := by
  obtain ⟨hall, rfl⟩ := Utf8.encode_eq_ok_iff.1 h
  refine ⟨(tidyBlanks t).flatMap Utf8.bytesOf, Utf8.encode_eq_ok_iff.2 ⟨fun c hc => ?_, rfl⟩, size_tidyBlanks t⟩
  rcases mem_of_mem_tidyBlanks hc with hc | rfl
  · exact hall c hc
  · decide

/-- The correction takes nothing but blanks. With `kept` the text without the longest run of end blanks at its end, nothing is
left when nothing is kept; otherwise what is kept, cleared, and one line end, the first of the cleared text. It reports one fix
when it changes the text, and nothing when it does not. A number of bytes in the report is how many bytes shorter the written
text is, and not zero. -/
theorem fixTrailingBlanks_takes_blanks_only (t : Text) :
    (∃ kept blanks, t = kept ++ blanks ∧ (∀ c ∈ blanks, isEndBlank c = true) ∧
        (∀ d ∈ kept.getLast?, isEndBlank d = false) ∧
        (kept = [] → (fixTrailingBlanks t).2 = []) ∧
        (kept ≠ [] → ∃ kept' t' e, Cleared kept kept' ∧ Cleared t t' ∧ IsFirstLineEnd e t' ∧
          (fixTrailingBlanks t).2 = kept' ++ e)) ∧
      ((fixTrailingBlanks t).2 = t → (fixTrailingBlanks t).1 = []) ∧
      ((fixTrailingBlanks t).2 ≠ t → ∃ message, (fixTrailingBlanks t).1 = [⟨.fix, message, none⟩] ∧
        (message = "missing newline at end of file" ∨
          ∃ n, 0 < n ∧ message = Text.ofNat n ++ " bytes of whitespaces" ∧ ∀ bytes, Utf8.encode t = .ok bytes →
            ∃ bytes', Utf8.encode (fixTrailingBlanks t).2 = .ok bytes' ∧ bytes.length = bytes'.length + n)) := by
  rw [fixTrailingBlanks_snd]
  refine ⟨?_, fun h => ?_, fun h => ?_⟩
  · rcases endBlank_or_split t with ht | ⟨front, d, blanks, rfl, hd, hblanks⟩
    · exact ⟨[], t, rfl, ht, by simp, fun _ => tidyBlanks_of_endBlanks ht, fun h => absurd rfl h⟩
    · refine ⟨front ++ [d], blanks, by simp, hblanks, by simp [hd], fun h => absurd h (by simp), fun _ => ?_⟩
      have hstripped := isFirstLineEnd_firstLineEnd (stripLineBlanks (front ++ d :: blanks))
      refine ⟨_, _, _, cleared_stripLineBlanks _, cleared_stripLineBlanks _, hstripped, ?_⟩
      rw [tidyBlanks_append_cons hd front hblanks, stripLineBlanks_append_cons hd, stripLineBlanks_append_cons hd,
        List.append_assoc]
      rfl
  · rw [fixTrailingBlanks, if_pos h]
  · rw [fixTrailingBlanks, if_neg h]
    split
    · rename_i hlt
      refine ⟨_, rfl, .inr ⟨t.length - (tidyBlanks t).length, by omega, rfl, fun bytes hbytes => ?_⟩⟩
      obtain ⟨bytes', hbytes', hlength⟩ := encode_tidyBlanks hbytes
      exact ⟨bytes', hbytes', by omega⟩
    · exact ⟨_, rfl, .inl rfl⟩

/-! ## Whether the result is final -/

/-- A text in which no blank stands directly before a line end. -/
def IsTrimmed (t : Text) : Prop :=
  ∀ front b e rest, t = front ++ b :: (e ++ rest) → IsLineEnd e → isLineBlank b = false

theorem stripLineBlanks_eq_self_iff (t : Text) : stripLineBlanks t = t ↔ IsTrimmed t := by
  constructor
  · rintro h front b e rest rfl he
    rw [← Bool.not_eq_true]
    intro hb
    have hno := endsAhead_of_steady hb h
    rw [endsAhead_lineEnd_append he] at hno
    cases hno
  · intro h
    induction t with
    | nil => rfl
    | cons c t ih =>
      rw [stripLineBlanks_cons, if_neg, ih fun front b e rest ht => h (c :: front) b e rest (congrArg (c :: ·) ht)]
      rw [Bool.and_eq_true]
      rintro ⟨hc, hends⟩
      obtain ⟨blanks, e, rest, rfl, hblanks, he⟩ := exists_lineEnd_of_endsAhead hends
      -- The last of the blanks, `c` among them, stands directly before the line end.
      obtain ⟨front, b, hfront⟩ := List.eq_nil_or_concat (c :: blanks) |>.resolve_left (List.cons_ne_nil c blanks)
      have hb : isLineBlank b = true := by
        have hmem : b ∈ c :: blanks := by rw [hfront]; simp
        rcases List.mem_cons.1 hmem with rfl | hmem
        · exact hc
        · exact hblanks b hmem
      rw [h front b e rest (by rw [← List.cons_append, hfront]; simp) he] at hb
      cases hb

/-- A tidied text is trimmed, unless a line end is hidden in the body of the text. -/
theorem isTrimmed_tidyBlanks_iff (t : Text) : IsTrimmed (tidyBlanks t) ↔ ¬ HidesLineEnd (body t) := by
  rw [← stripLineBlanks_eq_self_iff, ← stripLineBlanks_stripLineBlanks_iff]
  rcases endBlank_or_split t with ht | ⟨front, d, blanks, rfl, hd, hblanks⟩
  · rw [tidyBlanks_of_endBlanks ht, body_of_endBlanks ht]
    exact iff_of_true rfl rfl
  · have hone (t : Text) : stripLineBlanks (t ++ [d]) = stripLineBlanks t ++ [d] := stripLineBlanks_append_cons hd t []
    rw [tidyBlanks_append_cons hd front hblanks, body_append_cons hd front hblanks, hone, hone,
      stripLineBlanks_append_cons hd, stripLineBlanks_firstLineEnd, List.append_left_inj, List.append_left_inj]

theorem fixTrailingBlanks_eq_self_iff (t : Text) : fixTrailingBlanks t = ([], t) ↔ tidyBlanks t = t := by
  constructor
  · intro h
    rw [← fixTrailingBlanks_snd, h]
  · intro h
    rw [fixTrailingBlanks, if_pos h]

/-- What the correction leaves is nothing, or ends with one line end behind something that may not be taken away. It has no
blank before any of its line ends, and a second correction finds nothing to do, exactly when no blanks hide a line end in the
body of the text: when nowhere in it a carriage return behind a blank is kept from a line feed by blanks alone. -/
theorem fixTrailingBlanks_is_final_iff (t : Text) :
    ((fixTrailingBlanks t).2 = [] ∨
        ∃ front d e, (fixTrailingBlanks t).2 = front ++ d :: e ∧ isEndBlank d = false ∧ IsLineEnd e) ∧
      (IsTrimmed (fixTrailingBlanks t).2 ↔ ¬ HidesLineEnd (body t)) ∧
      (fixTrailingBlanks (fixTrailingBlanks t).2 = ([], (fixTrailingBlanks t).2) ↔ ¬ HidesLineEnd (body t)) := by
  rw [fixTrailingBlanks_snd, fixTrailingBlanks_eq_self_iff, tidyBlanks_tidyBlanks_iff]
  refine ⟨?_, isTrimmed_tidyBlanks_iff t, Iff.rfl⟩
  rcases endBlank_or_split t with ht | ⟨front, d, blanks, rfl, hd, hblanks⟩
  · exact .inl (tidyBlanks_of_endBlanks ht)
  · exact .inr ⟨_, d, _, tidyBlanks_append_cons hd front hblanks, hd, isLineEnd_firstLineEnd _⟩

/-- A text with a hidden line end: what the correction leaves has a blank before a line end, and a second correction takes it
away. -/
theorem fixTrailingBlanks_leaves_blank :
    fixTrailingBlanks "a \r \nb\n" = ([⟨.fix, "missing newline at end of file", none⟩], Text.ofString "a \r\nb\r\n") ∧
      ¬ IsTrimmed "a \r\nb\r\n" ∧
      fixTrailingBlanks "a \r\nb\r\n" = ([⟨.fix, "1 bytes of whitespaces", none⟩], Text.ofString "a\r\nb\r\n") := by
  refine ⟨by decide +kernel, fun h => ?_, by decide +kernel⟩
  have := h "a" ' ' [carriageReturn, lineFeed] "b\r\n" (by decide +kernel) (.inr rfl)
  cases this

end SourceTidy.Task
