import Mathlib.Data.List.TakeWhile
import SourceTidy.Json.Document

/-!
# Blanks of JSON documents

A document stays one when blanks are taken out of it, as long as another blank follows each of them, when the blanks at
its end are replaced by others, and when blanks that are control characters are (`checkWithin_of_thins`). Such blanks stand between
lexemes only, or within a string, where they are read like anything else unless they are control characters, which no string
may hold.
-/

namespace SourceTidy.Json

/-- A text with some of the blanks taken out that another blank follows, and with other blanks at its end and in place of
blanks that are control characters. -/
inductive Thins : Text → Text → Prop where
  | done {s s' : Text} (hs : ∀ c ∈ s, isBlank c = true) (hs' : ∀ c ∈ s', isBlank c = true) (hne : s ≠ [] → s' ≠ []) :
    Thins s s'
  | keep (c : CodePoint) {s s' : Text} (tail : Thins s s') : Thins (c :: s) (c :: s')
  | drop {b d : CodePoint} {s s' : Text} (hb : isBlank b = true) (hd : isBlank d = true) (tail : Thins (d :: s) s') :
    Thins (b :: d :: s) s'
  | replace {b : CodePoint} {run s s' : Text} (hb : isBlank b = true) (hcontrol : b.toNat < 0x20)
    (hrun : ∀ c ∈ run, isBlank c = true) (hne : run ≠ []) (tail : Thins s s') : Thins (b :: s) (run ++ s')

/-- A class of code points to which no blank belongs. -/
def Sharp (p : CodePoint → Bool) : Prop := p ' ' = false ∧ p '\t' = false ∧ p '\n' = false ∧ p '\r' = false

instance (p : CodePoint → Bool) : Decidable (Sharp p) := inferInstanceAs (Decidable (_ ∧ _))

theorem Sharp.isBlank_eq_false {p : CodePoint → Bool} (hp : Sharp p) {c : CodePoint} (hc : p c = true) :
    isBlank c = false := by
  obtain ⟨hspace, htab, hfeed, hreturn⟩ := hp
  rw [← Bool.not_eq_true]
  intro hblank
  simp only [isBlank, Bool.or_eq_true, beq_iff_eq] at hblank
  rcases hblank with ((rfl | rfl) | rfl) | rfl <;> simp_all

namespace Thins

variable {s s' : Text}

theorem ne_nil (h : Thins s s') (hs : s ≠ []) : s' ≠ [] := by
  induction h with
  | done _ _ hne => exact hne hs
  | keep c tail ih => exact List.cons_ne_nil _ _
  | drop hb hd tail ih => exact ih (List.cons_ne_nil _ _)
  | replace hb hcontrol hrun hne tail ih => exact List.append_ne_nil_of_left_ne_nil hne _

/-- What is no blank stays at the head of a text. -/
theorem of_cons {c : CodePoint} (hc : isBlank c = false) (h : Thins (c :: s) s') : ∃ t, s' = c :: t ∧ Thins s t := by
  cases h with
  | done hs _ _ =>
    rw [hs c List.mem_cons_self] at hc
    cases hc
  | keep _ tail => exact ⟨_, rfl, tail⟩
  | drop hb _ _ =>
    rw [hb] at hc
    cases hc
  | replace hb _ _ _ _ =>
    rw [hb] at hc
    cases hc

/-- What is no blank stood at the head of a text before. -/
theorem to_cons {c : CodePoint} (hc : isBlank c = false) {t : Text} (h : Thins s (c :: t)) :
    ∃ r, s = c :: r ∧ Thins r t := by
  generalize hs' : c :: t = s' at h
  induction h with
  | done _ hblank _ =>
    subst hs'
    rw [hblank c List.mem_cons_self] at hc
    cases hc
  | keep d tail ih =>
    cases hs'
    exact ⟨_, rfl, tail⟩
  | drop hb hd tail ih =>
    obtain ⟨r, hr, -⟩ := ih hs'
    cases hr
    rw [hd] at hc
    cases hc
  | replace hb hcontrol hrun hne tail ih =>
    obtain ⟨d, run, rfl⟩ := List.exists_cons_of_ne_nil hne
    cases hs'
    rw [hrun c List.mem_cons_self] at hc
    cases hc

theorem skipBlanks (h : Thins s s') : Thins (skipBlanks s) (skipBlanks s') := by
  unfold Json.skipBlanks
  induction h with
  | done hs hs' hne =>
    rw [List.dropWhile_eq_nil_iff.2 hs, List.dropWhile_eq_nil_iff.2 hs']
    exact .done (by simp) (by simp) id
  | keep c tail ih =>
    rw [List.dropWhile_cons, List.dropWhile_cons]
    split
    · exact ih
    · exact tail.keep c
  | drop hb hd tail ih =>
    rw [List.dropWhile_cons_of_pos hb]
    exact ih
  | replace hb hcontrol hrun hne tail ih =>
    rw [List.dropWhile_cons_of_pos hb, List.dropWhile_append_of_pos hrun]
    exact ih

/-- The code points of a class at the head of a text stay. -/
theorem takeWhile_dropWhile {p : CodePoint → Bool} (hp : Sharp p) (h : Thins s s') :
    s.takeWhile p = s'.takeWhile p ∧ Thins (s.dropWhile p) (s'.dropWhile p) := by
  have hnot {c : CodePoint} (hc : isBlank c = true) : ¬ p c = true := fun h => by
    rw [hp.isBlank_eq_false h] at hc
    cases hc
  have hblanks {t : Text} (ht : ∀ c ∈ t, isBlank c = true) : t.takeWhile p = [] ∧ t.dropWhile p = t := by
    cases t with
    | nil => exact ⟨rfl, rfl⟩
    | cons c t =>
      have hc := hnot (ht c List.mem_cons_self)
      exact ⟨List.takeWhile_cons_of_neg hc, List.dropWhile_cons_of_neg hc⟩
  induction h with
  | done hs hs' hne =>
    rw [(hblanks hs).1, (hblanks hs').1, (hblanks hs).2, (hblanks hs').2]
    exact ⟨rfl, .done hs hs' hne⟩
  | keep c tail ih =>
    rw [List.takeWhile_cons, List.takeWhile_cons, List.dropWhile_cons, List.dropWhile_cons]
    split
    · exact ⟨congrArg (c :: ·) ih.1, ih.2⟩
    · exact ⟨rfl, tail.keep c⟩
  | drop hb hd tail ih =>
    rw [List.takeWhile_cons_of_neg (hnot hd), List.dropWhile_cons_of_neg (hnot hd)] at ih
    rw [List.takeWhile_cons_of_neg (hnot hb), List.dropWhile_cons_of_neg (hnot hb)]
    exact ⟨ih.1, .drop hb hd ih.2⟩
  | replace hb hcontrol hrun hne tail ih =>
    obtain ⟨d, run, rfl⟩ := List.exists_cons_of_ne_nil hne
    have hd := hnot (hrun d List.mem_cons_self)
    rw [List.takeWhile_cons_of_neg (hnot hb), List.dropWhile_cons_of_neg (hnot hb), List.cons_append,
      List.takeWhile_cons_of_neg hd, List.dropWhile_cons_of_neg hd]
    exact ⟨rfl, tail.replace hb hcontrol hrun hne⟩

/-- A code point of a class stands at the head of both texts, or of neither. -/
theorem head_or {p : CodePoint → Bool} (hp : Sharp p) (h : Thins s s') :
    (∃ c t t', s = c :: t ∧ s' = c :: t' ∧ p c = true ∧ Thins t t') ∨
      (∀ c t, s = c :: t → p c = false) ∧ ∀ c t, s' = c :: t → p c = false := by
  by_cases hs : ∃ c t, s = c :: t ∧ p c = true
  · obtain ⟨c, t, rfl, hc⟩ := hs
    obtain ⟨t', rfl, h₁⟩ := h.of_cons (hp.isBlank_eq_false hc)
    exact .inl ⟨c, t, t', rfl, rfl, hc, h₁⟩
  · refine .inr ⟨fun c t heq => ?_, fun c t heq => ?_⟩
    · rw [← Bool.not_eq_true]
      exact fun hc => hs ⟨c, t, heq, hc⟩
    · rw [← Bool.not_eq_true]
      intro hc
      subst heq
      obtain ⟨r, hr, -⟩ := h.to_cons (hp.isBlank_eq_false hc)
      exact hs ⟨c, r, hr, hc⟩

theorem any_head? {p : CodePoint → Bool} (hp : Sharp p) (h : Thins s s') : s.head?.any p = s'.head?.any p := by
  rcases h.head_or hp with ⟨c, t, t', rfl, rfl, hc, -⟩ | ⟨hs, hs'⟩
  · rfl
  · have hnone {t : Text} (ht : ∀ c r, t = c :: r → p c = false) : t.head?.any p = false := by
      cases t with
      | nil => rfl
      | cons c t => exact ht c t rfl
    rw [hnone hs, hnone hs']

end Thins

/-! ## Lexemes -/

section Lexemes

variable {s s' : Text}

theorem startsWithUnicode_of_thins (h : Thins s s') (hs : startsWithUnicode s = true) : startsWithUnicode s' = true := by
  have hdigit {c : CodePoint} (hc : c.isHexDigit = true) : isBlank c = false :=
    Sharp.isBlank_eq_false (p := CodePoint.isHexDigit) (by decide) hc
  match s, hs with
  | a :: b :: c :: d :: e :: t, hs =>
    simp only [startsWithUnicode, Bool.and_eq_true] at hs
    obtain ⟨⟨⟨ha, hb⟩, hc⟩, hd⟩ := hs
    obtain ⟨t₁, rfl, h₁⟩ := h.of_cons (hdigit ha)
    obtain ⟨t₂, rfl, h₂⟩ := h₁.of_cons (hdigit hb)
    obtain ⟨t₃, rfl, h₃⟩ := h₂.of_cons (hdigit hc)
    obtain ⟨t₄, rfl, h₄⟩ := h₃.of_cons (hdigit hd)
    obtain ⟨f, t₅, rfl⟩ := List.exists_cons_of_ne_nil (h₄.ne_nil (by simp))
    simp only [startsWithUnicode, ha, hb, hc, hd, Bool.and_self]

theorem string_quote (opening rest : Text) : string opening ('"' :: rest) = .ok rest := by
  rw [string.eq_def]
  rfl

theorem string_unicode (opening : Text) {rest : Text} (h : startsWithUnicode rest = true) :
    string opening ('\\' :: 'u' :: rest) = string opening rest := by
  rw [string.eq_def]
  simp only [h, if_true]
  rfl

theorem string_escape (opening : Text) {d : CodePoint} (hu : d ≠ 'u') (hd : isSimpleEscape d = true) (rest : Text) :
    string opening ('\\' :: d :: rest) = string opening rest := by
  rw [string.eq_def]
  simp only [if_neg hu, hd, if_true]
  rfl

theorem string_plain (opening : Text) {c : CodePoint} (hquote : c ≠ '"') (hbackslash : c ≠ '\\')
    (hcontrol : ¬ c.toNat < 0x20) (rest : Text) : string opening (c :: rest) = string opening rest := by
  rw [string.eq_def]
  simp only [if_neg hquote, if_neg hbackslash, if_neg hcontrol]

theorem string_of_blanks {opening r : Text} (hs : ∀ c ∈ s, isBlank c = true) : string opening s ≠ .ok r := by
  induction s with
  | nil => simp [string]
  | cons c s ih =>
    obtain ⟨hc, hs⟩ := List.forall_mem_cons.1 hs
    have hquote : c ≠ '"' := by
      rintro rfl
      exact absurd hc (by decide)
    have hbackslash : c ≠ '\\' := by
      rintro rfl
      exact absurd hc (by decide)
    by_cases hcontrol : c.toNat < 0x20
    · rw [string.eq_def]
      simp only [if_neg hquote, if_neg hbackslash, if_pos hcontrol]
      simp
    · rw [string_plain opening hquote hbackslash hcontrol]
      exact ih hs

/-- A string stays one, and is followed by the same but for blanks. -/
theorem string_of_thins (h : Thins s s') {opening r : Text} (hr : string opening s = .ok r) (opening' : Text) :
    ∃ r', string opening' s' = .ok r' ∧ Thins r r' := by
  fun_induction string opening s generalizing s' with
  | case1 => cases hr
  | case2 rest =>
    obtain ⟨t, rfl, h₁⟩ := h.of_cons (by decide)
    cases hr
    exact ⟨t, string_quote opening' t, h₁⟩
  | case3 => cases hr
  | case4 rest' hunicode hne ih =>
    obtain ⟨t, rfl, h₁⟩ := h.of_cons (by decide)
    obtain ⟨t, rfl, h₂⟩ := h₁.of_cons (by decide)
    rw [string_unicode opening' (startsWithUnicode_of_thins h₂ hunicode)]
    exact ih h₂ hr
  | case5 => cases hr
  | case6 d rest' hu hsimple hne ih =>
    obtain ⟨t, rfl, h₁⟩ := h.of_cons (by decide)
    obtain ⟨t, rfl, h₂⟩ := h₁.of_cons (Sharp.isBlank_eq_false (p := isSimpleEscape) (by decide) hsimple)
    rw [string_escape opening' hu hsimple]
    exact ih h₂ hr
  | case7 => cases hr
  | case8 => cases hr
  | case9 c rest hquote hbackslash hcontrol ih =>
    cases h with
    | done hs _ _ => exact absurd hr (string_of_blanks fun d hd => hs d (List.mem_cons_of_mem c hd))
    | keep _ tail =>
      rw [string_plain opening' hquote hbackslash hcontrol]
      exact ih tail hr
    | drop hb hd tail => exact ih tail hr
    | replace _ h _ _ _ => exact absurd h hcontrol

theorem sharp_isAsciiDigit : Sharp CodePoint.isAsciiDigit := by decide

theorem integerPart_of_thins (h : Thins s s') {n : Nat} {r : Text} (hr : integerPart s = some (n, r)) :
    ∃ r', integerPart s' = some (n, r') ∧ Thins r r' := by
  cases s with
  | nil => cases hr
  | cons c rest =>
    rw [integerPart] at hr
    split at hr
    · rename_i hzero
      subst hzero
      cases hr
      obtain ⟨t, rfl, h₁⟩ := h.of_cons (by decide)
      exact ⟨t, by rw [integerPart, if_pos rfl], h₁⟩
    · split at hr
      · rename_i hzero hdigit
        cases hr
        obtain ⟨t, rfl, h₁⟩ := h.of_cons (Sharp.isBlank_eq_false (p := (·.within 0x31 0x39)) (by decide) hdigit)
        obtain ⟨htake, hdrop⟩ := h₁.takeWhile_dropWhile sharp_isAsciiDigit
        exact ⟨_, by rw [integerPart, if_neg hzero, if_pos hdigit, htake], hdrop⟩
      · cases hr

theorem skipSign_of_thins (h : Thins s s') : Thins (skipSign s) (skipSign s') := by
  have hsharp : Sharp fun c => decide (c = CodePoint.ofChar '+' ∨ c = CodePoint.ofChar '-') := by decide
  rcases h.head_or hsharp with ⟨c, t, t', rfl, rfl, hc, h₁⟩ | ⟨hs, hs'⟩
  · have hc := of_decide_eq_true hc
    rwa [skipSign, skipSign, if_pos hc, if_pos hc]
  · have hskip {t : Text} (ht : ∀ c r, t = c :: r → decide (c = CodePoint.ofChar '+' ∨ c = CodePoint.ofChar '-') = false) :
        skipSign t = t := by
      cases t with
      | nil => rfl
      | cons c t => rw [skipSign, if_neg (of_decide_eq_false (ht c t rfl))]
    rwa [hskip hs, hskip hs']

/-- A reader that may pass over something at the head of a text, and does so in both texts or in neither. -/
def SkipsAlike (read : Text → Text) : Prop :=
  ∀ s s', Thins s s' → Thins (read s) (read s') ∧ ((read s).length = s.length ↔ (read s').length = s'.length)

theorem skipsAlike_skipFraction : SkipsAlike skipFraction := by
  intro s s' h
  have hkeep {t : Text} (ht : ∀ c r, t = c :: r → c = CodePoint.ofChar '.' → r.head?.any CodePoint.isAsciiDigit = false) :
      skipFraction t = t := by
    unfold skipFraction
    split
    · rename_i c d rest
      rw [if_neg]
      rintro ⟨hc, hd⟩
      exact absurd hd (by simpa using ht c (d :: rest) rfl hc)
    · rfl
  have hdot : Sharp fun c => decide (c = CodePoint.ofChar '.') := by decide
  rcases h.head_or hdot with ⟨c, t, t', rfl, rfl, hc, h₁⟩ | ⟨hs, hs'⟩
  · have hc := of_decide_eq_true hc
    rcases h₁.head_or sharp_isAsciiDigit with ⟨d, r, r', rfl, rfl, hd, h₂⟩ | ⟨ht, ht'⟩
    · have hskip (r : Text) : skipFraction (c :: d :: r) = r.dropWhile CodePoint.isAsciiDigit := by
        rw [skipFraction, if_pos ⟨hc, hd⟩]
      have hshorter (r : Text) : (r.dropWhile CodePoint.isAsciiDigit).length ≠ (c :: d :: r).length := by
        have := length_dropWhile_le CodePoint.isAsciiDigit r
        simp only [List.length_cons]
        omega
      rw [hskip, hskip]
      exact ⟨(h₂.takeWhile_dropWhile sharp_isAsciiDigit).2, iff_of_false (hshorter _) (hshorter _)⟩
    · have hnone {r : Text} (hr : ∀ d q, r = d :: q → d.isAsciiDigit = false) : skipFraction (c :: r) = c :: r := by
        refine hkeep fun _ _ heq _ => ?_
        cases heq
        cases r with
        | nil => rfl
        | cons d q => exact hr d q rfl
      rw [hnone ht, hnone ht']
      exact ⟨h, iff_of_true rfl rfl⟩
  · rw [hkeep fun c r heq hc => absurd hc (of_decide_eq_false (hs c r heq)),
      hkeep fun c r heq hc => absurd hc (of_decide_eq_false (hs' c r heq))]
    exact ⟨h, iff_of_true rfl rfl⟩

theorem skipsAlike_skipExponent : SkipsAlike skipExponent := by
  intro s s' h
  have hletter : Sharp fun c => decide (c = CodePoint.ofChar 'e' ∨ c = CodePoint.ofChar 'E') := by decide
  rcases h.head_or hletter with ⟨c, t, t', rfl, rfl, hc, h₁⟩ | ⟨hs, hs'⟩
  · have hc := of_decide_eq_true hc
    have hsign := skipSign_of_thins h₁
    have hdigit := hsign.any_head? sharp_isAsciiDigit
    rw [skipExponent, skipExponent, ← hdigit]
    split
    · have hshorter (r : Text) : ((skipSign r).dropWhile CodePoint.isAsciiDigit).length ≠ (c :: r).length := by
        have h₁ := length_dropWhile_le CodePoint.isAsciiDigit (skipSign r)
        have h₂ := length_skipSign_le r
        rw [List.length_cons]
        omega
      exact ⟨(hsign.takeWhile_dropWhile sharp_isAsciiDigit).2, iff_of_false (hshorter _) (hshorter _)⟩
    · exact ⟨h, iff_of_true rfl rfl⟩
  · have hskip {t : Text} (ht : ∀ c r, t = c :: r → decide (c = CodePoint.ofChar 'e' ∨ c = CodePoint.ofChar 'E') = false) :
        skipExponent t = t := by
      cases t with
      | nil => rfl
      | cons c t =>
        rw [skipExponent, if_neg]
        exact fun hc => of_decide_eq_false (ht c t rfl) hc.1
    rw [hskip hs, hskip hs']
    exact ⟨h, iff_of_true rfl rfl⟩

/-- What follows an integer part is passed over in both texts, or in neither. -/
theorem skipsAlike_skipFraction_skipExponent : SkipsAlike fun t => skipExponent (skipFraction t) := by
  intro s s' h
  obtain ⟨hfraction, hlength⟩ := skipsAlike_skipFraction s s' h
  obtain ⟨hexponent, hlength'⟩ := skipsAlike_skipExponent _ _ hfraction
  refine ⟨hexponent, ?_⟩
  have hboth (t : Text) : (skipExponent (skipFraction t)).length = t.length ↔
      (skipExponent (skipFraction t)).length = (skipFraction t).length ∧ (skipFraction t).length = t.length := by
    have h₁ := length_skipFraction_le t
    have h₂ := length_skipExponent_le (skipFraction t)
    omega
  simp only [hboth, hlength, hlength']

theorem number_of_thins (h : Thins s s') {r : Text} (hr : number s = .ok r) : ∃ r', number s' = .ok r' ∧ Thins r r' := by
  -- A sign in front is passed over in both texts, or stands in neither.
  have hsign : ∃ t t', Thins t t' ∧ (if s.head? = some (CodePoint.ofChar '-') then s.tail else s) = t ∧
      (if s'.head? = some (CodePoint.ofChar '-') then s'.tail else s') = t' := by
    have hminus : Sharp fun c => decide (c = CodePoint.ofChar '-') := by decide
    rcases h.head_or hminus with ⟨c, t, t', rfl, rfl, hc, h₁⟩ | ⟨hs, hs'⟩
    · have hc := of_decide_eq_true hc
      exact ⟨t, t', h₁, by rw [hc]; rfl, by rw [hc]; rfl⟩
    · have hnone {t : Text} (ht : ∀ c r, t = c :: r → decide (c = CodePoint.ofChar '-') = false) :
          t.head? ≠ some (CodePoint.ofChar '-') := by
        cases t with
        | nil => simp
        | cons c t => simpa using ht c t rfl
      exact ⟨s, s', h, if_neg (hnone hs), if_neg (hnone hs')⟩
  obtain ⟨t, t', h₁, hs, hs'⟩ := hsign
  rw [number, hs] at hr
  rw [number, hs']
  cases hpart : integerPart t with
  | none =>
    rw [hpart] at hr
    cases hr
  | some part =>
    obtain ⟨n, after⟩ := part
    obtain ⟨after', hpart', h₂⟩ := integerPart_of_thins h₁ hpart
    obtain ⟨hskipped, hlength⟩ := skipsAlike_skipFraction_skipExponent _ _ h₂
    simp only [hpart] at hr
    simp only [hpart', ← hlength]
    split at hr
    · cases hr
    · cases hr
      rename_i hfew
      exact ⟨_, if_neg hfew, hskipped⟩

/-- A word without blanks stands at the head of both texts, or of neither. -/
theorem dropPrefix?_of_thins (h : Thins s s') {w : Text} (hw : ∀ c ∈ w, isBlank c = false) :
    (∃ r r', Text.dropPrefix? s w = some r ∧ Text.dropPrefix? s' w = some r' ∧ Thins r r') ∨
      Text.dropPrefix? s w = none ∧ Text.dropPrefix? s' w = none := by
  induction w generalizing s s' with
  | nil => exact .inl ⟨s, s', by cases s <;> rfl, by cases s' <;> rfl, h⟩
  | cons p w ih =>
    obtain ⟨hp, hw⟩ := List.forall_mem_cons.1 hw
    have hnone {t : Text} (ht : ∀ c r, t = c :: r → decide (c = p) = false) : Text.dropPrefix? t (p :: w) = none := by
      cases t with
      | nil => rfl
      | cons c t => rw [Text.dropPrefix?, if_neg (of_decide_eq_false (ht c t rfl))]
    have hsharp : Sharp fun c => decide (c = p) := by
      refine ⟨?_, ?_, ?_, ?_⟩ <;> rw [decide_eq_false_iff_not] <;> rintro rfl <;> exact absurd hp (by decide)
    rcases h.head_or hsharp with ⟨c, t, t', rfl, rfl, hc, h₁⟩ | ⟨hs, hs'⟩
    · have hc := of_decide_eq_true hc
      rw [Text.dropPrefix?, Text.dropPrefix?, if_pos hc, if_pos hc]
      exact ih h₁ hw
    · exact .inr ⟨hnone hs, hnone hs'⟩

theorem words_of_thins (h : Thins s s') {l : List Text} (hl : ∀ w ∈ l, ∀ c ∈ w, isBlank c = false) :
    (∃ r r', l.findSome? (Text.dropPrefix? s) = some r ∧ l.findSome? (Text.dropPrefix? s') = some r' ∧ Thins r r') ∨
      l.findSome? (Text.dropPrefix? s) = none ∧ l.findSome? (Text.dropPrefix? s') = none := by
  induction l with
  | nil => exact .inr ⟨rfl, rfl⟩
  | cons w l ih =>
    obtain ⟨hw, hl⟩ := List.forall_mem_cons.1 hl
    rcases dropPrefix?_of_thins h hw with ⟨r, r', hr, hr', hthins⟩ | ⟨hr, hr'⟩
    · exact .inl ⟨r, r', by rw [List.findSome?_cons, hr], by rw [List.findSome?_cons, hr'], hthins⟩
    · rw [List.findSome?_cons, List.findSome?_cons, hr, hr']
      exact ih hl

theorem constants_of_thins (h : Thins s s') {l : List Text} (hl : ∀ w ∈ l, ∀ c ∈ w, isBlank c = false) :
    l.find? (fun w => Text.startsWith s w) = l.find? fun w => Text.startsWith s' w := by
  induction l with
  | nil => rfl
  | cons w l ih =>
    obtain ⟨hw, hl⟩ := List.forall_mem_cons.1 hl
    have hsame : Text.startsWith s w = Text.startsWith s' w := by
      rcases dropPrefix?_of_thins h hw with ⟨r, r', hr, hr', -⟩ | ⟨hr, hr'⟩ <;>
        rw [Text.startsWith, Text.startsWith, hr, hr']
      rfl
    rw [List.find?_cons, List.find?_cons, hsame, ih hl]

/-- A value that is no container stays one. -/
theorem scalar_of_thins {c : CodePoint} (h : Thins s s') {r : Text}
    (hr : scalar (c :: s) = .ok r) : ∃ r', scalar (c :: s') = .ok r' ∧ Thins r r' := by
  rw [scalar] at hr ⊢
  split at hr
  · rename_i hquote
    rw [if_pos hquote]
    exact string_of_thins h hr _
  · rename_i hquote
    rw [if_neg hquote]
    rcases words_of_thins (h.keep c) (l := words) (by decide) with ⟨r₁, r₁', hw, hw', hthins⟩ | ⟨hw, hw'⟩
    · simp only [hw, Except.ok.injEq] at hr
      subst hr
      exact ⟨r₁', by simp only [hw'], hthins⟩
    · simp only [hw] at hr
      simp only [hw']
      rw [← constants_of_thins (h.keep c) (l := constants) (by decide)]
      cases hfind : constants.find? fun w => Text.startsWith (c :: s) w with
      | some w =>
        rw [hfind] at hr
        cases hr
      | none =>
        rw [hfind] at hr
        exact number_of_thins (h.keep c) hr

end Lexemes

/-! ## Documents -/

section Equations

variable (depth : Nat) (opened : List Container)

theorem readValue_cons (c : CodePoint) (rest : Text) :
    readValue depth opened (c :: rest) =
      if c = '[' then
        if depth ≤ opened.length then .error (.tooDeep .array)
        else
          match skipBlanks rest with
          | [] => .error (.broken .value [])
          | d :: rest' => if d = ']' then readAfter depth opened rest' else readValue depth (.array :: opened) (d :: rest')
      else if c = '\x7b' then
        if depth ≤ opened.length then .error (.tooDeep .object)
        else
          match skipBlanks rest with
          | [] => .error (.broken .memberName [])
          | d :: rest' => if d = '\x7d' then readAfter depth opened rest' else readMember depth (.object :: opened) (d :: rest')
      else
        match scalar (c :: rest) with
        | .error e => .error e
        | .ok rest' => readAfter depth opened rest' := by
  rw [readValue]
  split
  · split
    · rfl
    · cases skipBlanks rest <;> rfl
  · split
    · split
      · rfl
      · cases skipBlanks rest <;> rfl
    · cases scalar (c :: rest) <;> rfl

theorem readMember_cons (c : CodePoint) (rest : Text) :
    readMember depth opened (c :: rest) =
      if c = '"' then
        match string (c :: rest) rest with
        | .error e => .error e
        | .ok afterName =>
          match skipBlanks afterName with
          | [] => .error (.broken .colon [])
          | d :: rest' =>
            if d = ':' then readValue depth opened (skipBlanks rest') else .error (.broken .colon (d :: rest'))
      else .error (.broken .memberName (c :: rest)) := by
  rw [readMember]
  split
  · cases string (c :: rest) rest with
    | error e => rfl
    | ok afterName =>
      simp only
      cases skipBlanks afterName <;> rfl
  · rfl

theorem readAfter_eq (t : Text) :
    readAfter depth opened t =
      match opened, skipBlanks t with
      | [], [] => .ok ()
      | [], c :: rest => .error (.broken .extraData (c :: rest))
      | _ :: _, [] => .error (.broken .comma [])
      | .array :: below, c :: rest =>
        if c = ']' then readAfter depth below rest
        else if c = ',' then readValue depth (.array :: below) (skipBlanks rest)
        else .error (.broken .comma (c :: rest))
      | .object :: below, c :: rest =>
        if c = '\x7d' then readAfter depth below rest
        else if c = ',' then readMember depth (.object :: below) (skipBlanks rest)
        else .error (.broken .comma (c :: rest)) := by
  rw [readAfter.eq_def]
  rcases opened with _ | ⟨_ | _, below⟩ <;> cases skipBlanks t <;> rfl

end Equations

theorem isBlank_of_skipBlanks_eq_cons {s r : Text} {c : CodePoint} (h : skipBlanks s = c :: r) : isBlank c = false := by
  have := List.head?_dropWhile_not isBlank s
  rw [skipBlanks] at h
  simpa [h] using this

/-- Behind their blanks, two texts are both at their end, or at the same code point. -/
theorem skipBlanks_of_thins {s s' : Text} (h : Thins s s') :
    skipBlanks s = [] ∧ skipBlanks s' = [] ∨
      ∃ c r r', skipBlanks s = c :: r ∧ skipBlanks s' = c :: r' ∧ Thins r r' ∧ r.length < s.length := by
  have hthins := h.skipBlanks
  cases hs : skipBlanks s with
  | nil =>
    left
    refine ⟨rfl, ?_⟩
    cases hs' : skipBlanks s' with
    | nil => rfl
    | cons c r' =>
      rw [hs'] at hthins
      obtain ⟨r, hr, -⟩ := hthins.to_cons (isBlank_of_skipBlanks_eq_cons hs')
      rw [hs] at hr
      cases hr
  | cons c r =>
    rw [hs] at hthins
    obtain ⟨r', hs', hr⟩ := hthins.of_cons (isBlank_of_skipBlanks_eq_cons hs)
    exact .inr ⟨c, r, r', rfl, hs', hr, length_lt_of_skipBlanks hs⟩

theorem length_of_scalar {c : CodePoint} {s r : Text} (h : scalar (c :: s) = .ok r) : r.length ≤ s.length := by
  have := length_scalar_lt h
  rw [List.length_cons] at this
  omega

/-- Where one text can be read on, at a value, at the name of a member or after a value, another can. -/
structure ReadsAs (depth : Nat) (s s' : Text) : Prop where
  value : ∀ opened, readValue depth opened (skipBlanks s) = .ok () → readValue depth opened (skipBlanks s') = .ok ()
  member : ∀ opened, readMember depth opened (skipBlanks s) = .ok () → readMember depth opened (skipBlanks s') = .ok ()
  after : ∀ opened, readAfter depth opened s = .ok () → readAfter depth opened s' = .ok ()

section Steps

variable {depth n : Nat} (ih : ∀ s s' : Text, s.length < n → Thins s s' → ReadsAs depth s s') {c : CodePoint} {r r' : Text}
  (hr : Thins r r') (hn : r.length < n)
include ih hr hn

theorem readValue_of_thins (opened : List Container) (h : readValue depth opened (c :: r) = .ok ()) :
    readValue depth opened (c :: r') = .ok () := by
  rw [readValue_cons] at h ⊢
  by_cases harray : c = '['
  · rw [if_pos harray] at h ⊢
    split at h
    · cases h
    · rename_i hdepth
      rw [if_neg hdepth]
      rcases skipBlanks_of_thins hr with ⟨hs, hs'⟩ | ⟨d, q, q', hs, hs', hq, hlength⟩
      · rw [hs] at h
        cases h
      · have hvalue := (ih r r' hn hr).value (.array :: opened)
        simp only [hs, hs'] at h hvalue ⊢
        split at h
        · rename_i hclosed
          rw [if_pos hclosed]
          exact (ih q q' (by omega) hq).after opened h
        · rename_i hclosed
          rw [if_neg hclosed]
          exact hvalue h
  · rw [if_neg harray] at h ⊢
    by_cases hobject : c = '\x7b'
    · rw [if_pos hobject] at h ⊢
      split at h
      · cases h
      · rename_i hdepth
        rw [if_neg hdepth]
        rcases skipBlanks_of_thins hr with ⟨hs, hs'⟩ | ⟨d, q, q', hs, hs', hq, hlength⟩
        · rw [hs] at h
          cases h
        · have hmember := (ih r r' hn hr).member (.object :: opened)
          simp only [hs, hs'] at h hmember ⊢
          split at h
          · rename_i hclosed
            rw [if_pos hclosed]
            exact (ih q q' (by omega) hq).after opened h
          · rename_i hclosed
            rw [if_neg hclosed]
            exact hmember h
    · rw [if_neg hobject] at h ⊢
      cases hscalar : scalar (c :: r) with
      | error e =>
        rw [hscalar] at h
        cases h
      | ok rest =>
        rw [hscalar] at h
        obtain ⟨rest', hscalar', hrest⟩ := scalar_of_thins hr hscalar
        have := length_of_scalar hscalar
        simp only [hscalar']
        exact (ih rest rest' (by omega) hrest).after opened h

theorem readMember_of_thins (opened : List Container) (h : readMember depth opened (c :: r) = .ok ()) :
    readMember depth opened (c :: r') = .ok () := by
  rw [readMember_cons] at h ⊢
  split at h
  · rename_i hquote
    rw [if_pos hquote]
    cases hstring : string (c :: r) r with
    | error e =>
      rw [hstring] at h
      cases h
    | ok rest =>
      rw [hstring] at h
      obtain ⟨rest', hstring', hrest⟩ := string_of_thins hr hstring (c :: r')
      have hshorter := length_string_lt hstring
      rcases skipBlanks_of_thins hrest with ⟨hs, hs'⟩ | ⟨d, q, q', hs, hs', hq, hlength⟩
      · simp only [hs] at h
        cases h
      · simp only [hs] at h
        simp only [hstring', hs']
        split at h
        · rename_i hcolon
          rw [if_pos hcolon]
          exact (ih q q' (by omega) hq).value opened h
        · cases h
  · cases h

omit hr hn in
theorem readAfter_of_thins {s s' : Text} (hs : Thins s s') (hn : s.length < n + 1) (opened : List Container)
    (h : readAfter depth opened s = .ok ()) : readAfter depth opened s' = .ok () := by
  rw [readAfter_eq] at h ⊢
  rcases skipBlanks_of_thins hs with ⟨hs, hs'⟩ | ⟨d, q, q', hs, hs', hq, hlength⟩
  · simp only [hs] at h
    simpa only [hs'] using h
  · have hreads := ih q q' (by omega) hq
    rcases opened with _ | ⟨_ | _, below⟩
    · simp only [hs] at h
      cases h
    · simp only [hs] at h
      simp only [hs']
      split at h
      · rename_i hclosed
        rw [if_pos hclosed]
        exact hreads.after below h
      · rename_i hclosed
        rw [if_neg hclosed]
        split at h
        · rename_i hcomma
          rw [if_pos hcomma]
          exact hreads.value _ h
        · cases h
    · simp only [hs] at h
      simp only [hs']
      split at h
      · rename_i hclosed
        rw [if_pos hclosed]
        exact hreads.after below h
      · rename_i hclosed
        rw [if_neg hclosed]
        split at h
        · rename_i hcomma
          rw [if_pos hcomma]
          exact hreads.member _ h
        · cases h

end Steps

/-- A text that can be read on can still be read on when it is thinned. -/
theorem readsAs_of_thins (depth n : Nat) : ∀ s s' : Text, s.length < n → Thins s s' → ReadsAs depth s s' := by
  induction n with
  | zero => exact fun s s' hn => absurd hn (Nat.not_lt_zero _)
  | succ n ih =>
    intro s s' hn h
    rcases skipBlanks_of_thins h with ⟨hs, hs'⟩ | ⟨c, r, r', hs, hs', hr, hlength⟩
    · exact ⟨by rw [hs, hs']; exact fun _ => id, by rw [hs, hs']; exact fun _ => id, readAfter_of_thins ih h hn⟩
    · refine ⟨?_, ?_, readAfter_of_thins ih h hn⟩
      · rw [hs, hs']
        exact readValue_of_thins ih hr (by omega)
      · rw [hs, hs']
        exact readMember_of_thins ih hr (by omega)

/-- A document stays one when it is thinned. -/
theorem checkWithin_of_thins {depth : Nat} {s s' : Text} (h : Thins s s') (hs : checkWithin depth s = .ok ()) :
    checkWithin depth s' = .ok () := by
  have hmark : Sharp fun c => decide (c = byteOrderMark) := by decide
  rw [checkWithin] at hs ⊢
  split at hs
  · cases hs
  · rename_i hhead
    rw [if_neg]
    · exact (readsAs_of_thins depth _ s s' (Nat.lt_succ_self _) h).value [] hs
    · intro hhead'
      rcases h.head_or hmark with ⟨c, t, t', rfl, rfl, hc, -⟩ | ⟨-, hs'⟩
      · exact hhead hhead'
      · obtain ⟨t, rfl⟩ := List.head?_eq_some_iff.1 hhead'
        exact absurd (hs' _ _ rfl) (by decide)

end SourceTidy.Json
