import Mathlib.Data.List.TakeWhile
import SourceTidy.Proofs.Json.Blanks
import SourceTidy.Proofs.Json.Grammar
import SourceTidy.Text.Lines

/-!
# Strings of JSON documents

What is read up to the closing quote is the inside of a string (`inside_of_string`, `string_of_inside`). Nothing in a string
is a line feed. So what the reader does is settled within the line, and a text in which there is a line feed can go on in any
way behind it (`string_append`).
-/

namespace SourceTidy.Json

open Text (lineFeed)

variable {t r s : Text}

/-! ## Blanks -/

theorem skipBlanks_append {b : Text} (hb : AllBlank b) (t : Text) : skipBlanks (b ++ t) = skipBlanks t :=
  List.dropWhile_append_of_pos hb

theorem skipBlanks_cons {c : CodePoint} (hc : isBlank c = false) (t : Text) : skipBlanks (c :: t) = c :: t :=
  List.dropWhile_cons_of_neg (by simp [hc])

theorem exists_blanks (t : Text) : ∃ b, AllBlank b ∧ t = b ++ skipBlanks t :=
  ⟨t.takeWhile isBlank, fun _ hc => List.mem_takeWhile_imp hc, List.takeWhile_append_dropWhile.symm⟩

/-! ## A text that goes on -/

/-- A failure in a text that goes on. -/
def Failure.extend (s : Text) : Failure → Failure
  | .broken problem rest => .broken problem (rest ++ s)
  | e => e

/-- A result of reading a text that goes on. -/
def extend {α : Type} (s : Text) (more : α → α) : Except Failure α → Except Failure α
  | .ok a => .ok (more a)
  | .error e => .error (e.extend s)

/-- What a reader leaves of a text in which there is a line feed goes on as the text does. -/
def IsLocal (read : Text → Text) : Prop := ∀ t s, lineFeed ∈ t → read (t ++ s) = read t ++ s ∧ lineFeed ∈ read t

/-- A code point of a class in which there is no line feed. -/
theorem lineFeed_ne_of_class {p : CodePoint → Bool} {c : CodePoint} (hp : p lineFeed = false) (hc : p c = true) :
    lineFeed ≠ c := by
  rintro rfl
  rw [hp] at hc
  cases hc

/-! ## Strings -/

theorem Inside.tail_of_isHexDigit {c : CodePoint} (hc : c.isHexDigit = true) (h : Inside (c :: t)) : Inside t := by
  cases h with
  | plain _ _ _ tail => exact tail
  | escape _ _ => exact absurd hc (by decide)
  | unicode _ _ _ _ _ => exact absurd hc (by decide)

theorem startsWithUnicode_iff :
    startsWithUnicode t = true ↔ ∃ a b c d e rest, t = a :: b :: c :: d :: e :: rest ∧ a.isHexDigit = true ∧
      b.isHexDigit = true ∧ c.isHexDigit = true ∧ d.isHexDigit = true := by
  constructor
  · intro h
    unfold startsWithUnicode at h
    split at h
    · simp only [Bool.and_eq_true] at h
      exact ⟨_, _, _, _, _, _, rfl, h.1.1.1, h.1.1.2, h.1.2, h.2⟩
    · cases h
  · rintro ⟨a, b, c, d, e, rest, rfl, ha, hb, hc, hd⟩
    simp only [startsWithUnicode, ha, hb, hc, hd, Bool.and_self]

/-- A code point that is no hexadecimal digit ends a run of them, wherever the text goes on behind it. -/
theorem startsWithUnicode_of_append {stop : CodePoint} (hstop : stop.isHexDigit = false)
    (h : startsWithUnicode (t ++ stop :: s) = true) :
    ∃ a b c d rest, t = a :: b :: c :: d :: rest ∧ a.isHexDigit = true ∧ b.isHexDigit = true ∧ c.isHexDigit = true ∧
      d.isHexDigit = true := by
  obtain ⟨a, b, c, d, e, rest, heq, ha, hb, hc, hd⟩ := startsWithUnicode_iff.1 h
  match t, heq with
  | [], heq | [_], heq | [_, _], heq | [_, _, _], heq =>
    simp only [List.nil_append, List.cons_append, List.cons.injEq] at heq
    simp_all
  | a' :: b' :: c' :: d' :: rest', heq =>
    simp only [List.cons_append, List.cons.injEq] at heq
    obtain ⟨rfl, rfl, rfl, rfl, -⟩ := heq
    exact ⟨_, _, _, _, rest', rfl, ha, hb, hc, hd⟩

theorem startsWithUnicode_append (ht : lineFeed ∈ t) (s : Text) : startsWithUnicode (t ++ s) = startsWithUnicode t := by
  obtain ⟨x, y, rfl⟩ := List.append_of_mem ht
  have hstop : lineFeed.isHexDigit = false := by decide
  rw [Bool.eq_iff_iff]
  constructor
  · intro h
    rw [List.append_assoc, List.cons_append] at h
    obtain ⟨a, b, c, d, rest, rfl, ha, hb, hc, hd⟩ := startsWithUnicode_of_append hstop h
    cases rest with
    | nil => exact startsWithUnicode_iff.2 ⟨a, b, c, d, _, _, rfl, ha, hb, hc, hd⟩
    | cons e rest => exact startsWithUnicode_iff.2 ⟨a, b, c, d, e, _, rfl, ha, hb, hc, hd⟩
  · intro h
    obtain ⟨a, b, c, d, e, rest, heq, ha, hb, hc, hd⟩ := startsWithUnicode_iff.1 h
    rw [heq]
    exact startsWithUnicode_iff.2 ⟨a, b, c, d, e, rest ++ s, rfl, ha, hb, hc, hd⟩

/-- What is read up to a quote is the inside of a string. -/
theorem inside_of_string {opening : Text} (h : string opening t = .ok r) : ∃ i, Inside i ∧ t = i ++ quote :: r := by
  fun_induction string opening t with
  | case1 => cases h
  | case2 rest =>
    cases h
    exact ⟨[], .nil, rfl⟩
  | case3 => cases h
  | case4 rest hunicode hne ih =>
    obtain ⟨i, hi, rfl⟩ := ih h
    obtain ⟨a, b, c, d, i, rfl, ha, hb, hc, hd⟩ := startsWithUnicode_of_append (by decide) hunicode
    have htail : Inside i :=
      (((hi.tail_of_isHexDigit ha).tail_of_isHexDigit hb).tail_of_isHexDigit hc).tail_of_isHexDigit hd
    exact ⟨_, .unicode ha hb hc hd htail, rfl⟩
  | case5 => cases h
  | case6 d rest hu hsimple hne ih =>
    obtain ⟨i, hi, rfl⟩ := ih h
    exact ⟨_, .escape hsimple hi, rfl⟩
  | case7 => cases h
  | case8 => cases h
  | case9 c rest hquote hbackslash hcontrol ih =>
    obtain ⟨i, hi, rfl⟩ := ih h
    exact ⟨_, .plain hquote hbackslash hcontrol hi, rfl⟩

theorem string_of_isHexDigit (opening : Text) {c : CodePoint} (hc : c.isHexDigit = true) (rest : Text) :
    string opening (c :: rest) = string opening rest := by
  refine string_plain opening ?_ ?_ ?_ rest
  · rintro rfl
    exact absurd hc (by decide)
  · rintro rfl
    exact absurd hc (by decide)
  · simp only [CodePoint.isHexDigit, CodePoint.isAsciiDigit, CodePoint.within, Bool.or_eq_true, decide_eq_true_eq] at hc
    omega

theorem string_of_inside (opening : Text) {i : Text} (hi : Inside i) (r : Text) :
    string opening (i ++ quote :: r) = .ok r := by
  induction hi with
  | nil => exact string_quote opening r
  | plain hquote hbackslash hcontrol _ ih =>
    rw [List.cons_append, string_plain opening hquote hbackslash hcontrol]
    exact ih
  | @escape c rest hc _ ih =>
    have hu : c ≠ 'u' := by
      rintro rfl
      exact absurd hc (by decide)
    rw [List.cons_append, List.cons_append, string_escape opening hu hc]
    exact ih
  | @unicode a b c d rest ha hb hc hd _ ih =>
    have hunicode : startsWithUnicode (a :: b :: c :: d :: (rest ++ quote :: r)) = true := by
      obtain ⟨e, rest', heq⟩ :=
        List.exists_cons_of_ne_nil (List.append_ne_nil_of_right_ne_nil rest (List.cons_ne_nil quote r))
      rw [heq]
      exact startsWithUnicode_iff.2 ⟨a, b, c, d, e, rest', rfl, ha, hb, hc, hd⟩
    simp only [List.cons_append]
    rw [string_unicode opening hunicode, string_of_isHexDigit opening ha, string_of_isHexDigit opening hb,
      string_of_isHexDigit opening hc, string_of_isHexDigit opening hd]
    exact ih

theorem lineFeed_ne_of_not_control {c : CodePoint} (hc : ¬ c.toNat < 0x20) : lineFeed ≠ c := by
  rintro rfl
  exact hc (by decide)

/-- Where a string breaks off, the grammar is broken: at its start, if the text ends within it, or behind what is no line
feed. -/
theorem broken_of_string {opening : Text} {e : Failure} (h : string opening t = .error e) :
    ∃ problem rest, e = .broken problem rest ∧ (rest = opening ∨ ∃ y, t = y ++ rest ∧ lineFeed ∉ y) := by
  have hcons {c : CodePoint} {y : Text} (hc : lineFeed ≠ c) (hy : lineFeed ∉ y) : lineFeed ∉ c :: y :=
    List.not_mem_cons_of_ne_of_not_mem hc hy
  fun_induction string opening t with
  | case1 =>
    cases h
    exact ⟨_, _, rfl, .inl rfl⟩
  | case2 => cases h
  | case3 =>
    cases h
    exact ⟨_, _, rfl, .inl rfl⟩
  | case4 rest hunicode hne ih =>
    obtain ⟨problem, rest', rfl, hrest⟩ := ih h
    refine ⟨problem, rest', rfl, hrest.imp_right ?_⟩
    rintro ⟨y, rfl, hy⟩
    exact ⟨_, rfl, hcons (by decide) (hcons (by decide) hy)⟩
  | case5 rest hunicode hne =>
    cases h
    exact ⟨_, _, rfl, .inr ⟨['\\'], rfl, by decide⟩⟩
  | case6 d rest hu hsimple hne ih =>
    obtain ⟨problem, rest', rfl, hrest⟩ := ih h
    refine ⟨problem, rest', rfl, hrest.imp_right ?_⟩
    rintro ⟨y, rfl, hy⟩
    have hd : lineFeed ≠ d := lineFeed_ne_of_class (by decide) hsimple
    exact ⟨_, rfl, hcons (by decide) (hcons hd hy)⟩
  | case7 =>
    cases h
    exact ⟨_, _, rfl, .inr ⟨[], rfl, List.not_mem_nil⟩⟩
  | case8 =>
    cases h
    exact ⟨_, _, rfl, .inr ⟨[], rfl, List.not_mem_nil⟩⟩
  | case9 c rest hquote hbackslash hcontrol ih =>
    obtain ⟨problem, rest', rfl, hrest⟩ := ih h
    refine ⟨problem, rest', rfl, hrest.imp_right ?_⟩
    rintro ⟨y, rfl, hy⟩
    exact ⟨_, rfl, hcons (lineFeed_ne_of_not_control hcontrol) hy⟩

theorem string_append (opening : Text) (ht : lineFeed ∈ t) (s : Text) :
    string (opening ++ s) (t ++ s) = extend s (· ++ s) (string opening t) := by
  fun_induction string opening t with
  | case1 => cases ht
  | case2 rest => exact string_quote _ _
  | case3 hne => exact absurd ht (by decide)
  | case4 rest hunicode hne ih =>
    have hrest : lineFeed ∈ rest := List.mem_of_ne_of_mem (by decide) (List.mem_of_ne_of_mem (by decide) ht)
    rw [List.cons_append, List.cons_append, string_unicode _ (by rwa [startsWithUnicode_append hrest])]
    exact ih hrest
  | case5 rest hunicode hne =>
    have hrest : lineFeed ∈ rest := List.mem_of_ne_of_mem (by decide) (List.mem_of_ne_of_mem (by decide) ht)
    rw [List.cons_append, List.cons_append, string.eq_def]
    simp only [startsWithUnicode_append hrest, hunicode, if_neg hne]
    rfl
  | case6 d rest hu hsimple hne ih =>
    have hd : lineFeed ≠ d := lineFeed_ne_of_class (by decide) hsimple
    have hrest : lineFeed ∈ rest := List.mem_of_ne_of_mem hd (List.mem_of_ne_of_mem (by decide) ht)
    rw [List.cons_append, List.cons_append, string_escape _ hu hsimple]
    exact ih hrest
  | case7 d rest hu hsimple hne =>
    rw [List.cons_append, List.cons_append, string.eq_def]
    simp only [if_neg hu, if_neg hne, hsimple]
    rfl
  | case8 c rest hquote hbackslash hcontrol =>
    rw [List.cons_append, string.eq_def]
    simp only [if_neg hquote, if_neg hbackslash, if_pos hcontrol]
    rfl
  | case9 c rest hquote hbackslash hcontrol ih =>
    rw [List.cons_append, string_plain _ hquote hbackslash hcontrol]
    exact ih (List.mem_of_ne_of_mem (lineFeed_ne_of_not_control hcontrol) ht)

end SourceTidy.Json
