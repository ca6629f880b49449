import SourceTidy.Task.PhpSource
import SourceTidy.Proofs.Php.Tiles
import SourceTidy.Proofs.Text.Bulk

/-!
# The edits that make arrays short

For any tokens that tile a source, the edits lie in the source one after the other, and each replaces what it is meant to:
the word `array` with what follows it up to a parenthesis, or one closing parenthesis. So they can be made at any time
without the others getting in their way, and every source in which an array is opened loses some of its bulk.
-/

namespace SourceTidy.Php

/-- Edits that follow each other between two places. -/
inductive Between : Nat → List Edit → Nat → Prop where
  | nil {low high : Nat} (h : low ≤ high) : Between low [] high
  | cons {low high : Nat} {e : Edit} {es : List Edit} (hlow : low ≤ e.start) (hspan : e.start < e.stop)
      (tail : Between e.stop es high) : Between low (e :: es) high

namespace Between

theorem le {low high : Nat} {es : List Edit} (h : Between low es high) : low ≤ high := by
  induction h with
  | nil h => exact h
  | cons hlow hspan tail ih => omega

theorem append {low middle high : Nat} {es es' : List Edit} (h : Between low es middle) (h' : Between middle es' high) :
    Between low (es ++ es') high := by
  induction h with
  | nil h =>
    cases h' with
    | nil h' => exact .nil (Nat.le_trans h h')
    | cons hlow hspan tail => exact .cons (Nat.le_trans h hlow) hspan tail
  | cons hlow hspan tail ih => exact .cons hlow hspan (ih h')

theorem mono {low high high' : Nat} {es : List Edit} (h : Between low es high) (hle : high ≤ high') :
    Between low es high' := by
  have := h.append (.nil hle)
  rwa [List.append_nil] at this

theorem low_le {low high : Nat} {es : List Edit} (h : Between low es high) {e : Edit} (he : e ∈ es) : low ≤ e.start := by
  induction h with
  | nil h => cases he
  | cons hlow hspan tail ih =>
    rcases List.mem_cons.1 he with rfl | he
    · exact hlow
    · have := ih he
      omega

/-- Edits that follow each other are sorted by where they start. -/
theorem pairwise {low high : Nat} {es : List Edit} (h : Between low es high) :
    es.Pairwise fun a b => decide (a.start ≤ b.start) = true := by
  induction h with
  | nil h => exact .nil
  | cons hlow hspan tail ih =>
    refine List.pairwise_cons.2 ⟨fun b hb => decide_eq_true ?_, ih⟩
    have := tail.low_le hb
    omega

end Between

/-- What an edit replaces: the word `array` and what follows it up to a parenthesis, or a closing parenthesis. -/
inductive Replaces (t : Text) : Edit → Prop where
  | opening {before word trivia rest : Text} (h : t = before ++ word ++ trivia ++ ('(' : CodePoint) :: rest)
      (hword : word.asciiLower = Text.ofString "array") :
      Replaces t ⟨before.length, (before ++ word ++ trivia).length + 1, '['⟩
  | closing {before rest : Text} (h : t = before ++ (')' : CodePoint) :: rest) :
      Replaces t ⟨before.length, before.length + 1, ']'⟩

namespace ShortArrays

/-! ## What one mark does -/

theorem closing_ne_opening : (']' : CodePoint) ≠ ('[' : CodePoint) := by decide

theorem mark_opening (s : State) (offset : Nat) :
    mark s offset '(' = (s.pending.toList.map fun start => ⟨start, offset + 1, '['⟩,
      { s with opened := s.pending.isSome :: s.opened, pending := none }) := if_pos rfl

theorem mark_closing (s : State) (offset : Nat) :
    mark s offset ')' = (if s.opened.head? = some true then [⟨offset, offset + 1, ']'⟩] else [],
      { s with opened := s.opened.tail, pending := none }) := by
  obtain ⟨opened, pending, previous⟩ := s
  rw [mark, if_neg (by decide), if_pos rfl]
  cases opened with
  | nil => rfl
  | cons isArray below => cases isArray <;> rfl

theorem mark_other (s : State) (offset : Nat) {c : CodePoint} (hopen : c ≠ '(') (hclose : c ≠ ')') :
    mark s offset c = ([], { s with pending := none }) := by
  rw [mark, if_neg hopen, if_neg hclose]

/-! ## Where the edits lie -/

/-- What holds of a state when some part of a source has been read, and edits up to a place have been found: the word that
is pending stands behind that place, and what has been read since is not needed. -/
structure Reads (before : Text) (low : Nat) (s : State) : Prop where
  low_le : low ≤ before.length
  pending : ∀ start, s.pending = some start → low ≤ start ∧
    ∃ front word trivia : Text, before = front ++ word ++ trivia ∧ front.length = start ∧
      word.asciiLower = Text.ofString "array"

theorem Reads.of_pending_eq_none {before : Text} {low : Nat} {s : State} (hlow : low ≤ before.length)
    (hs : s.pending = none) : Reads before low s :=
  ⟨hlow, fun start h => by rw [hs] at h; cases h⟩

/-- What some code points of a source do: the edits that they make follow the ones before, and replace what they are meant
to, and the state holds what it is to hold after them. -/
def Makes (t before read : Text) (low : Nat) (made : List Edit × State) : Prop :=
  ∃ low', Between low made.1 low' ∧ Reads (before ++ read) low' made.2 ∧ ∀ e ∈ made.1, Replaces t e

/-- One mark of punctuation. -/
theorem Reads.mark {t before rest : Text} {low : Nat} {s : State} (h : Reads before low s) (c : CodePoint)
    (ht : t = before ++ c :: rest) : Makes t before [c] low (mark s before.length c) := by
  have hlow : low ≤ (before ++ [c]).length := by
    have := h.low_le
    rw [List.length_append]
    omega
  have hnone (s' : State) (hs' : s'.pending = none) : Makes t before [c] low ([], s') :=
    ⟨low, .nil (Nat.le_refl low), .of_pending_eq_none hlow hs', by simp⟩
  by_cases hopen : c = '('
  · subst hopen
    rw [mark_opening]
    cases hp : s.pending with
    | none => exact hnone _ rfl
    | some start =>
      obtain ⟨hstart, front, word, trivia, rfl, rfl, hword⟩ := h.pending start hp
      refine ⟨(front ++ word ++ trivia).length + 1, .cons hstart ?_ (.nil (Nat.le_refl _)), .of_pending_eq_none ?_ rfl, ?_⟩
      · simp only [List.length_append]
        omega
      · simp only [List.length_append, List.length_singleton]
        omega
      · intro e he
        obtain rfl := List.mem_singleton.1 he
        exact .opening ht hword
  · by_cases hclose : c = ')'
    · subst hclose
      rw [mark_closing]
      by_cases htop : s.opened.head? = some true
      · rw [if_pos htop]
        refine ⟨before.length + 1, .cons h.low_le (Nat.lt_succ_self _) (.nil (Nat.le_refl _)),
          .of_pending_eq_none (by simp) rfl, ?_⟩
        intro e he
        obtain rfl := List.mem_singleton.1 he
        exact .closing ht
      · rw [if_neg htop]
        exact hnone _ rfl
    · rw [mark_other s before.length hopen hclose]
      exact hnone _ rfl

/-- The marks of a token of punctuation. -/
theorem Reads.marks {t before read rest : Text} {low : Nat} {s : State} (h : Reads before low s)
    (ht : t = before ++ read ++ rest) : Makes t before read low (marks s before.length read) := by
  induction read generalizing before low s with
  | nil => exact ⟨low, .nil (Nat.le_refl low), by rwa [List.append_nil], by simp [ShortArrays.marks]⟩
  | cons c read ih =>
    have ht' : t = before ++ c :: (read ++ rest) := by simpa using ht
    obtain ⟨middle, hedits, hreads, hreplaces⟩ := h.mark c ht'
    obtain ⟨high, hedits', hreads', hreplaces'⟩ := ih hreads (by simpa using ht)
    rw [List.length_append, List.length_singleton] at hedits' hreads' hreplaces'
    rw [ShortArrays.marks]
    refine ⟨high, hedits.append hedits', by simpa using hreads', fun e he => ?_⟩
    rcases List.mem_append.1 he with he | he
    · exact hreplaces e he
    · exact hreplaces' e he

/-- What a token that is no trivia does, but for being remembered. -/
def take (s : State) (k : Token) : List Edit × State :=
  if k.kind = .punctuation then marks s k.offset k.text
  else if isArrayWord k && !namingWords.contains s.previous then ([], { s with pending := some k.offset })
  else ([], { s with pending := none })

theorem token_of_trivia {s : State} {k : Token} (hk : (k.text.isEmpty || k.kind.isTrivia) = true) :
    token s k = ([], s) := if_pos hk

theorem token_of_take {s : State} {k : Token} (hk : ¬ (k.text.isEmpty || k.kind.isTrivia) = true) :
    token s k = ((take s k).1, { (take s k).2 with previous := k.text.asciiLower }) := if_neg hk

/-- One token. -/
theorem Reads.token {t before rest : Text} {low : Nat} {s : State} (h : Reads before low s) (k : Token)
    (hk : k.offset = before.length) (ht : t = before ++ k.text ++ rest) :
    Makes t before k.text low (token s k) := by
  have hlow : low ≤ (before ++ k.text).length := by
    have := h.low_le
    rw [List.length_append]
    omega
  by_cases htrivia : (k.text.isEmpty || k.kind.isTrivia) = true
  · rw [token_of_trivia htrivia]
    refine ⟨low, .nil (Nat.le_refl low), ⟨hlow, fun start hp => ?_⟩, by simp⟩
    obtain ⟨hstart, front, word, trivia, rfl, hfront, hword⟩ := h.pending start hp
    exact ⟨hstart, front, word, trivia ++ k.text, by simp, hfront, hword⟩
  · have hmade : Makes t before k.text low (take s k) := by
      unfold take
      split
      · rw [hk]
        exact h.marks ht
      · split
        · rename_i harray
          simp only [isArrayWord, Bool.and_eq_true, beq_iff_eq] at harray
          refine ⟨low, .nil (Nat.le_refl low), ⟨hlow, fun start hp => ?_⟩, by simp⟩
          cases hp
          exact ⟨hk ▸ h.low_le, before, k.text, [], by simp, hk.symm, harray.1.1⟩
        · exact ⟨low, .nil (Nat.le_refl low), .of_pending_eq_none hlow rfl, by simp⟩
    obtain ⟨high, hedits, hreads, hreplaces⟩ := hmade
    rw [token_of_take htrivia]
    exact ⟨high, hedits, ⟨hreads.low_le, hreads.pending⟩, hreplaces⟩

/-- The edits of the tokens that are left lie in the part of the source that is left. -/
theorem Reads.editsFrom {t before rest : Text} {low : Nat} {s : State} {ks : List Token} (h : Reads before low s)
    (hks : Tiles before.length ks rest) (ht : t = before ++ rest) :
    Between low (editsFrom s ks) t.length ∧ ∀ e ∈ ShortArrays.editsFrom s ks, Replaces t e := by
  generalize hoffset : before.length = offset at hks
  induction hks generalizing before low s with
  | nil =>
    subst ht
    exact ⟨.nil (by simpa using h.low_le), by simp [ShortArrays.editsFrom]⟩
  | @cons offset k ks rest hk tail ih =>
    have htext : t = before ++ k.text ++ rest := by simpa using ht
    obtain ⟨middle, hedits, hreads, hreplaces⟩ := h.token k (hk.trans hoffset.symm) htext
    obtain ⟨hedits', hreplaces'⟩ := ih hreads (by simpa using ht) (by simp [hoffset])
    rw [ShortArrays.editsFrom]
    refine ⟨hedits.append hedits', fun e he => ?_⟩
    rcases List.mem_append.1 he with he | he
    · exact hreplaces e he
    · exact hreplaces' e he

/-- The edits of a source that is tiled are found in the order in which they stand. -/
theorem edits_eq_editsFrom {ks : List Token} {t : Text} (h : Tiles 0 ks t) : edits ks = editsFrom {} ks := by
  have hstart : Reads [] 0 {} := .of_pending_eq_none (Nat.le_refl 0) rfl
  exact List.mergeSort_of_pairwise (hstart.editsFrom h rfl).1.pairwise

/-- The edits of a source that is tiled follow each other in it, and each replaces what it is meant to. -/
theorem edits_spec {ks : List Token} {t : Text} (h : Tiles 0 ks t) :
    Between 0 (edits ks) t.length ∧ ∀ e ∈ edits ks, Replaces t e := by
  have hstart : Reads [] 0 {} := .of_pending_eq_none (Nat.le_refl 0) rfl
  rw [edits_eq_editsFrom h]
  exact hstart.editsFrom h rfl

/-! ## Nothing is closed that was not opened -/

/-- Edits none of which opens an array. -/
def NoneOpens (es : List Edit) : Prop := ∀ e ∈ es, e.replacement ≠ ('[' : CodePoint)

theorem noneOpens_append (es es' : List Edit) : NoneOpens (es ++ es') ↔ NoneOpens es ∧ NoneOpens es' :=
  List.forall_mem_append

/-- What is done in a state in which no open parenthesis belongs to an array: unless an array is opened there are no edits,
and still no open parenthesis belongs to one. -/
def StaysIdle (made : List Edit × State) : Prop :=
  NoneOpens made.1 → made.1 = [] ∧ ∀ isArray ∈ made.2.opened, isArray = false

section Idle

variable {s : State} (hs : ∀ isArray ∈ s.opened, isArray = false)
include hs

theorem staysIdle_mark (offset : Nat) (c : CodePoint) : StaysIdle (mark s offset c) := by
  intro h
  by_cases hopen : c = '('
  · rw [hopen, mark_opening] at h ⊢
    cases hp : s.pending with
    | none => exact ⟨rfl, List.forall_mem_cons.2 ⟨rfl, hs⟩⟩
    | some start =>
      rw [hp] at h
      exact absurd rfl (h _ List.mem_cons_self)
  · by_cases hclose : c = ')'
    · have htop : s.opened.head? ≠ some true := fun htop => absurd (hs true (List.mem_of_mem_head? htop)) (by simp)
      rw [hclose, mark_closing, if_neg htop]
      exact ⟨rfl, fun isArray hmem => hs isArray (List.mem_of_mem_tail hmem)⟩
    · rw [mark_other s offset hopen hclose]
      exact ⟨rfl, hs⟩

theorem staysIdle_marks (offset : Nat) (t : Text) : StaysIdle (marks s offset t) := by
  intro h
  induction t generalizing s offset with
  | nil => exact ⟨rfl, hs⟩
  | cons c rest ih =>
    simp only [marks, noneOpens_append] at h ⊢
    obtain ⟨hnil, hidle⟩ := staysIdle_mark hs offset c h.1
    obtain ⟨hnil', hidle'⟩ := ih hidle (offset + 1) h.2
    exact ⟨by rw [hnil, hnil', List.append_nil], hidle'⟩

theorem staysIdle_token (k : Token) : StaysIdle (token s k) := by
  intro h
  by_cases htrivia : (k.text.isEmpty || k.kind.isTrivia) = true
  · rw [token_of_trivia htrivia]
    exact ⟨rfl, hs⟩
  · rw [token_of_take htrivia] at h ⊢
    unfold take at h ⊢
    split
    · rename_i hpunctuation
      rw [if_pos hpunctuation] at h
      exact staysIdle_marks hs k.offset k.text h
    · split
      · exact ⟨rfl, hs⟩
      · exact ⟨rfl, hs⟩

/-- If no edit opens an array, there are no edits. -/
theorem editsFrom_of_noneOpens (ks : List Token) (h : NoneOpens (editsFrom s ks)) : editsFrom s ks = [] := by
  induction ks generalizing s with
  | nil => rfl
  | cons k ks ih =>
    simp only [editsFrom, noneOpens_append] at h ⊢
    obtain ⟨hnil, hidle⟩ := staysIdle_token hs k h.1
    rw [hnil, ih hidle h.2, List.append_nil]

end Idle

theorem edits_of_noneOpens (ks : List Token) (h : NoneOpens (edits ks)) : edits ks = [] := by
  have hfrom : NoneOpens (editsFrom {} ks) := fun e he => h e (List.mem_mergeSort.2 he)
  rw [edits, editsFrom_of_noneOpens (fun isArray hmem => absurd hmem List.not_mem_nil) ks hfrom, List.mergeSort_nil]

end ShortArrays

/-! ## Making the edits -/

namespace Edit

/-- What stands in an edited text stood there before, or was put there by an edit. -/
theorem mem_applyAll {es : List Edit} {t : Text} {c : CodePoint} (h : c ∈ applyAll es t) :
    c ∈ t ∨ ∃ e ∈ es, e.replacement = c := by
  induction es with
  | nil => exact .inl h
  | cons e es ih =>
    have happly : applyAll (e :: es) t = e.apply (applyAll es t) := rfl
    rw [happly, apply, List.mem_append, List.mem_cons] at h
    have hrest (hmem : c ∈ applyAll es t) : c ∈ t ∨ ∃ f ∈ e :: es, f.replacement = c := by
      rcases ih hmem with hmem | ⟨f, hf, hfc⟩
      · exact .inl hmem
      · exact .inr ⟨f, List.mem_cons_of_mem e hf, hfc⟩
    rcases h with h | rfl | h
    · exact hrest (List.mem_of_mem_take h)
    · exact .inr ⟨e, List.mem_cons_self, rfl⟩
    · exact hrest (List.mem_of_mem_drop h)

/-- Edits behind a place leave what is before it as it is. -/
theorem take_applyAll {low high : Nat} {es : List Edit} {t : Text} (h : Between low es high) (ht : high ≤ t.length) :
    (applyAll es t).take low = t.take low := by
  induction h with
  | nil h => rfl
  | @cons low high e es hlow hspan tail ih =>
    have hstop : e.stop ≤ t.length := Nat.le_trans tail.le ht
    have hkeep : (applyAll es t).take e.start = t.take e.start := by
      rw [← Nat.min_eq_left (Nat.le_of_lt hspan), ← List.take_take, ih ht, List.take_take]
    have happly : applyAll (e :: es) t = e.apply (applyAll es t) := rfl
    have hlength : low ≤ (t.take e.start).length := by
      rw [List.length_take]
      omega
    rw [happly, apply, hkeep, List.take_append_of_le_length hlength, List.take_take, Nat.min_eq_left hlow]

/-- The edits after the first leave its part alone, so it is made in the source as it was. -/
theorem applyAll_cons {low high : Nat} {e : Edit} {es : List Edit} {t : Text} (h : Between low (e :: es) high)
    (ht : high ≤ t.length) :
    ∃ rest, applyAll es t = t.take e.stop ++ rest ∧ applyAll (e :: es) t = t.take e.start ++ e.replacement :: rest := by
  cases h with
  | cons hlow hspan tail =>
    have hkeep := take_applyAll tail ht
    refine ⟨(applyAll es t).drop e.stop, ?_, ?_⟩
    · rw [← hkeep, List.take_append_drop]
    · have happly : applyAll (e :: es) t = e.apply (applyAll es t) := rfl
      rw [happly, apply, ← Nat.min_eq_left (Nat.le_of_lt hspan), ← List.take_take, hkeep, List.take_take,
        Nat.min_eq_left (Nat.le_of_lt hspan)]

end Edit

/-- The bulk of what an edit replaces is that of a bracket, and more when an array is opened. -/
theorem Replaces.bulk_le {t : Text} {e : Edit} (h : Replaces t e) :
    Text.bulk (t.take e.start) + 1 + (if e.replacement = ('[' : CodePoint) then 1 else 0) ≤
      Text.bulk (t.take e.stop) := by
  cases h with
  | @opening before word trivia rest h hword =>
    have hstart : t.take before.length = before := by simp [h]
    have hstop : t.take ((before ++ word ++ trivia).length + 1) = before ++ word ++ trivia ++ [('(' : CodePoint)] := by
      rw [h, List.take_length_add_append]
      rfl
    have hfive : Text.bulk word = 5 := by
      rw [← Text.bulk_asciiLower, hword]
      decide
    have hone : Text.bulk [('(' : CodePoint)] = 1 := by decide
    simp only [hstart, hstop, Text.bulk_append, hfive, hone]
    split <;> omega
  | @closing before rest h =>
    have hstart : t.take before.length = before := by simp [h]
    have hstop : t.take (before.length + 1) = before ++ [(')' : CodePoint)] := by
      rw [h, List.take_length_add_append]
      rfl
    have hone : Text.bulk [(')' : CodePoint)] = 1 := by decide
    simp only [hstart, hstop, Text.bulk_append, hone]
    refine Nat.le_of_eq ?_
    rw [if_neg (by decide)]

/-- Making the edits adds nothing to the bulk of a source, and takes some of it away when an array is opened. -/
theorem Edit.bulk_applyAll {low high : Nat} {es : List Edit} {t : Text} (h : Between low es high) (ht : high ≤ t.length)
    (hreplaces : ∀ e ∈ es, Replaces t e) :
    Text.bulk (applyAll es t) + es.countP (fun e => e.replacement = ('[' : CodePoint)) ≤ Text.bulk t := by
  induction h with
  | nil h => simp [applyAll]
  | @cons low high e es hlow hspan tail ih =>
    have hrest := ih ht fun f hf => hreplaces f (List.mem_cons_of_mem e hf)
    obtain ⟨rest, hes, heses⟩ := applyAll_cons (.cons hlow hspan tail) ht
    have hspan := (hreplaces e List.mem_cons_self).bulk_le
    have hone : Text.bulk (e.replacement :: rest) ≤ 1 + Text.bulk rest := by
      rw [Text.bulk_cons]
      exact Nat.add_le_add_right (Text.bulk_le_length [e.replacement]) _
    rw [hes, Text.bulk_append] at hrest
    rw [heses, Text.bulk_append, List.countP_cons]
    simp only [decide_eq_true_eq]
    omega

end SourceTidy.Php

namespace SourceTidy.Task

open SourceTidy.Php (Token Tiles)
open SourceTidy.Php.ShortArrays (NoneOpens)

/-- Each edit that opens an array is reported as a fix, and nothing else is. -/
theorem shortArrayNotices_eq_nil_iff (t : Text) (es : List Php.Edit) :
    es.filterMap (shortArrayNotice t) = [] ↔ NoneOpens es := by
  rw [List.filterMap_eq_nil_iff]
  refine forall₂_congr fun e _ => ?_
  rw [shortArrayNotice]
  by_cases h : e.replacement = ('[' : CodePoint) <;> simp [h]

theorem level_of_mem_shortArrayNotices {t : Text} {es : List Php.Edit} {n : Notice}
    (h : n ∈ es.filterMap (shortArrayNotice t)) : n.level = .fix := by
  obtain ⟨e, -, he⟩ := List.mem_filterMap.1 h
  rw [shortArrayNotice] at he
  split at he
  · cases he
    rfl
  · cases he

/-- A source in which arrays are made short loses some of its bulk, and this is reported; any other source stays. -/
theorem fixArrays_spec {ks : List Token} {t : Text} (h : Tiles 0 ks t) :
    fixArrays ks t = ([], t) ∨
      (fixArrays ks t).1 ≠ [] ∧ Text.bulk (fixArrays ks t).2 < Text.bulk t := by
  obtain ⟨hbetween, hreplaces⟩ := Php.ShortArrays.edits_spec h
  by_cases hopens : ∃ e ∈ Php.ShortArrays.edits ks, e.replacement = ('[' : CodePoint)
  · right
    have hbulk := Php.Edit.bulk_applyAll hbetween (Nat.le_refl _) hreplaces
    obtain ⟨e, he, hopen⟩ := hopens
    have hcount : 0 < (Php.ShortArrays.edits ks).countP fun e => e.replacement = ('[' : CodePoint) :=
      List.countP_pos_iff.2 ⟨e, he, decide_eq_true hopen⟩
    refine ⟨fun hnotices => (shortArrayNotices_eq_nil_iff t _).1 hnotices e he hopen, ?_⟩
    have hfixed : (fixArrays ks t).2 = Php.Edit.applyAll (Php.ShortArrays.edits ks) t := rfl
    rw [hfixed]
    omega
  · left
    have hnil := Php.ShortArrays.edits_of_noneOpens ks fun e he hopen => hopens ⟨e, he, hopen⟩
    rw [fixArrays, hnil]
    rfl

end SourceTidy.Task
