import Mathlib
import SourceTidy.Task.PhpSource
import SourceTidy.Proofs.Php.Tiles

/-!
# Escapes in double quoted literals

A literal is a run of adjacent tokens of double quoted text that no such token goes before or comes after (`IsLiteral`). Read
from left to right, each of its backslashes takes the code point after it along, so that a backslash is met only behind a text
in which every backslash that is met has its code point (`Paired`). The check reports the escapes in the order in which they
stand, and looks at one code point of each: the two that PHP reads with a second one, `\u` and the brace behind it, it takes
for known on their own (`escapes_reported_iff`).
-/

namespace SourceTidy.Task

open SourceTidy.Php (Token Tiles Tokenizer)

/-! ## Literals -/

/-- `IsLiteral ks start text`: some adjacent tokens of a source, all of them double quoted text, with none of that kind directly
before or after them. The first stands at `start`, and together they say `text`. -/
def IsLiteral (ks : List Token) (start : Nat) (text : Text) : Prop :=
  ∃ before first run after, ks = before ++ first :: (run ++ after) ∧
    (∀ k ∈ first :: run, k.kind.isDoubleQuotedText = true) ∧
    (∀ k ∈ before.getLast?, k.kind.isDoubleQuotedText = false) ∧
    (∀ k ∈ after.head?, k.kind.isDoubleQuotedText = false) ∧
    start = first.offset ∧ text = (first :: run).flatMap (·.text)

theorem literals_cons_of_other {k : Token} (hk : k.kind.isDoubleQuotedText = false) (current : Option (Nat × Text))
    (ks : List Token) : literals current (k :: ks) = current.toList ++ literals none ks := by
  cases current <;> simp [literals, hk]

/-- A literal that has begun goes on for as long as there are tokens of its kind. -/
theorem literals_run {run after : List Token} (hrun : ∀ k ∈ run, k.kind.isDoubleQuotedText = true)
    (hafter : ∀ k ∈ after.head?, k.kind.isDoubleQuotedText = false) (start : Nat) (text : Text) :
    literals (some (start, text)) (run ++ after) = (start, text ++ run.flatMap (·.text)) :: literals none after := by
  induction run generalizing text with
  | nil =>
    cases after with
    | nil => simp [literals]
    | cons k after =>
      have hk := hafter k rfl
      rw [List.nil_append, literals_cons_of_other hk, literals_cons_of_other hk]
      simp
  | cons k run ih =>
    obtain ⟨hk, hrun⟩ := List.forall_mem_cons.1 hrun
    rw [List.cons_append, literals, if_pos hk, ih hrun, List.flatMap_cons, List.append_assoc]

theorem literals_first {first : Token} {run after : List Token}
    (hrun : ∀ k ∈ first :: run, k.kind.isDoubleQuotedText = true)
    (hafter : ∀ k ∈ after.head?, k.kind.isDoubleQuotedText = false) :
    literals none (first :: (run ++ after)) = (first.offset, (first :: run).flatMap (·.text)) :: literals none after := by
  obtain ⟨hfirst, hrun⟩ := List.forall_mem_cons.1 hrun
  rw [literals, if_pos hfirst, List.flatMap_cons]
  exact literals_run hrun hafter first.offset first.text

/-- No literal goes on over a token of another kind. -/
theorem literals_append {before : List Token} (hbefore : ∀ k ∈ before.getLast?, k.kind.isDoubleQuotedText = false)
    (current : Option (Nat × Text)) (hcurrent : before = [] → current = none) (ks : List Token) :
    literals current (before ++ ks) = literals current before ++ literals none ks := by
  induction before generalizing current with
  | nil => simp [hcurrent rfl, literals]
  | cons k before ih =>
    have hlast : ∀ k ∈ before.getLast?, k.kind.isDoubleQuotedText = false := by
      intro last hmem
      refine hbefore last ?_
      rw [List.getLast?_cons, Option.mem_def.1 hmem]
      rfl
    rw [List.cons_append]
    by_cases hk : k.kind.isDoubleQuotedText = true
    · -- The token is not the last one, since the last one is of another kind.
      have hne : before ≠ [] := by
        rintro rfl
        exact absurd (hbefore k rfl) (by simp [hk])
      cases current with
      | none => rw [literals, literals, if_pos hk, if_pos hk, ih hlast _ (absurd · hne)]
      | some current => rw [literals, literals, if_pos hk, if_pos hk, ih hlast _ (absurd · hne)]
    · rw [Bool.not_eq_true] at hk
      rw [literals_cons_of_other hk, literals_cons_of_other hk, ih hlast none (fun _ => rfl), List.append_assoc]

/-- Tokens of double quoted text go on up to one of another kind, or to the end. -/
theorem exists_run (ks : List Token) :
    ∃ run after, ks = run ++ after ∧ (∀ k ∈ run, k.kind.isDoubleQuotedText = true) ∧
      ∀ k ∈ after.head?, k.kind.isDoubleQuotedText = false := by
  induction ks with
  | nil => exact ⟨[], [], rfl, by simp, by simp⟩
  | cons k ks ih =>
    by_cases hk : k.kind.isDoubleQuotedText = true
    · obtain ⟨run, after, rfl, hrun, hafter⟩ := ih
      exact ⟨k :: run, after, rfl, List.forall_mem_cons.2 ⟨hk, hrun⟩, hafter⟩
    · exact ⟨[], k :: ks, rfl, by simp, by simpa using hk⟩

/-- What is found behind tokens that end with one of another kind is a literal. -/
theorem isLiteral_of_mem_literals {before rest : List Token} {start : Nat} {text : Text}
    (hbefore : ∀ k ∈ before.getLast?, k.kind.isDoubleQuotedText = false) (h : (start, text) ∈ literals none rest) :
    IsLiteral (before ++ rest) start text := by
  -- The tokens are read run by run, each of them with the token of another kind that ends it.
  induction hlength : rest.length using Nat.strongRecOn generalizing before rest with
  | ind n ih =>
    cases rest with
    | nil => cases h
    | cons k rest =>
      have hnext (front : List Token) {after : List Token} {other : Token} (hother : other.kind.isDoubleQuotedText = false)
          (heq : before ++ k :: rest = (front ++ [other]) ++ after) (hshort : after.length < n)
          (hmem : (start, text) ∈ literals none after) : IsLiteral (before ++ k :: rest) start text := by
        rw [heq]
        exact ih after.length hshort (by simpa using hother) hmem rfl
      simp only [List.length_cons] at hlength
      by_cases hk : k.kind.isDoubleQuotedText = true
      · obtain ⟨run, after, rfl, hrun, hafter⟩ := exists_run rest
        have hall : ∀ k' ∈ k :: run, k'.kind.isDoubleQuotedText = true := List.forall_mem_cons.2 ⟨hk, hrun⟩
        rw [literals_first hall hafter] at h
        rcases List.mem_cons.1 h with heq | h
        · obtain ⟨rfl, rfl⟩ := Prod.mk.inj heq
          exact ⟨before, k, run, after, rfl, hall, hbefore, hafter, rfl, rfl⟩
        · cases after with
          | nil => cases h
          | cons other after =>
            have hother := hafter other rfl
            rw [literals_cons_of_other hother] at h
            simp only [List.length_append, List.length_cons] at hlength
            exact hnext (before ++ k :: run) hother (by simp) (by omega) h
      · rw [Bool.not_eq_true] at hk
        rw [literals_cons_of_other hk] at h
        exact hnext before hk (by simp) (by omega) h

/-- The literals that are found are those of the source. -/
theorem mem_literals_iff (ks : List Token) (start : Nat) (text : Text) :
    (start, text) ∈ literals none ks ↔ IsLiteral ks start text := by
  constructor
  · intro h
    have hnone : ∀ k ∈ ([] : List Token).getLast?, k.kind.isDoubleQuotedText = false := by simp
    exact isLiteral_of_mem_literals hnone h
  · rintro ⟨before, first, run, after, rfl, hrun, hbefore, hafter, rfl, rfl⟩
    rw [literals_append hbefore none (fun _ => rfl), literals_first hrun hafter]
    exact List.mem_append_right _ List.mem_cons_self

/-- A literal of a source that is tiled stands in the text at its offset. -/
theorem IsLiteral.eq_append {ks : List Token} {t text : Text} {start : Nat} (h : IsLiteral ks start text)
    (hks : Tiles 0 ks t) : ∃ front rest, t = front ++ text ++ rest ∧ start = front.length := by
  obtain ⟨before, first, run, after, rfl, -, -, -, rfl, rfl⟩ := h
  obtain ⟨front, rest, rfl, hoffset, -, htail⟩ := hks.of_mem
  obtain ⟨middle, rest, rfl, hmiddle, -⟩ := htail.of_append
  refine ⟨front, rest, ?_, by omega⟩
  rw [List.flatMap_cons, ← hmiddle.eq_flatMap]
  simp

/-- Each literal ends before the next one starts. -/
theorem pairwise_literals {offset : Nat} {ks : List Token} {t : Text} (h : Tiles offset ks t)
    (current : Option (Nat × Text)) (hcurrent : ∀ l ∈ current, l.1 + l.2.length = offset) :
    (literals current ks).Pairwise (fun l l' => l.1 + l.2.length ≤ l'.1) ∧
      ∀ l ∈ literals current ks, (current.elim offset (·.1)) ≤ l.1 := by
  induction h generalizing current with
  | nil => cases current <;> simp [literals]
  | @cons offset k ks t hoffset tail ih =>
    by_cases hk : k.kind.isDoubleQuotedText = true
    · cases current with
      | none =>
        have hrest := ih (some (k.offset, k.text)) (by simp [hoffset])
        rw [literals, if_pos hk]
        simpa [hoffset] using hrest
      | some current =>
        have hstart := hcurrent current rfl
        have hrest := ih (some (current.1, current.2 ++ k.text)) (by simp [← hstart, Nat.add_assoc])
        rw [literals, if_pos hk]
        exact hrest
    · rw [Bool.not_eq_true] at hk
      obtain ⟨hpairwise, hlow⟩ := ih none (by simp)
      simp only [Option.elim_none] at hlow
      rw [literals_cons_of_other hk]
      cases current with
      | none =>
        exact ⟨hpairwise, fun l hl => Nat.le_trans (Nat.le_add_right _ _) (hlow l hl)⟩
      | some current =>
        have hstart := hcurrent current rfl
        refine ⟨List.pairwise_cons.2 ⟨fun l hl => ?_, hpairwise⟩, List.forall_mem_cons.2 ⟨Nat.le_refl _, fun l hl => ?_⟩⟩
        · have := hlow l hl
          omega
        · have := hlow l hl
          simp only [Option.elim_some]
          omega

/-! ## Escapes -/

/-- A text in which every backslash that is met, read from left to right, has a code point after it, which it takes along. -/
inductive Paired : Text → Prop where
  | nil : Paired []
  | plain {c : CodePoint} {t : Text} (hc : c ≠ '\\') (tail : Paired t) : Paired (c :: t)
  | pair (c : CodePoint) {t : Text} (tail : Paired t) : Paired ('\\' :: c :: t)

/-- The escapes of a literal are the backslashes that are met and have something to take along. -/
theorem mem_escapes_iff (offset : Nat) (t : Text) (n : Nat) (c : CodePoint) :
    (n, c) ∈ escapes offset t ↔
      ∃ front rest, t = front ++ ('\\' : CodePoint) :: c :: rest ∧ Paired front ∧ n = offset + front.length := by
  fun_induction escapes offset t with
  | case1 => simp
  | case2 offset d =>
    refine iff_of_false List.not_mem_nil ?_
    rintro ⟨front, rest, heq, -⟩
    have hlength := congrArg List.length heq
    simp at hlength
    omega
  | case3 offset d rest ih =>
    rw [List.mem_cons, ih]
    constructor
    · rintro (heq | ⟨front, rest, rfl, hfront, rfl⟩)
      · obtain ⟨rfl, rfl⟩ := Prod.mk.inj heq
        exact ⟨[], rest, rfl, .nil, rfl⟩
      · exact ⟨'\\' :: d :: front, rest, rfl, .pair d hfront, by simp only [List.length_cons]; omega⟩
    · rintro ⟨front, rest, heq, hfront, rfl⟩
      cases hfront with
      | nil =>
        obtain ⟨rfl, rfl⟩ := List.cons.inj (List.cons.inj heq).2
        exact .inl rfl
      | plain hd tail => exact absurd (List.cons.inj heq).1.symm hd
      | @pair d' front tail =>
        obtain ⟨rfl, rfl⟩ := List.cons.inj (List.cons.inj heq).2
        exact .inr ⟨front, rest, rfl, tail, by simp only [List.length_cons]; omega⟩
  | case4 offset d e rest hd ih =>
    rw [ih]
    constructor
    · rintro ⟨front, rest', heq, hfront, rfl⟩
      exact ⟨d :: front, rest', by rw [heq]; rfl, .plain hd hfront, by simp only [List.length_cons]; omega⟩
    · rintro ⟨front, rest', heq, hfront, rfl⟩
      cases hfront with
      | nil => exact absurd (List.cons.inj heq).1 hd
      | plain hc tail => exact ⟨_, rest', (List.cons.inj heq).2, tail, by simp only [List.length_cons]; omega⟩
      | pair c' tail => exact absurd (List.cons.inj heq).1 hd

/-- Escapes follow each other in the literal. -/
theorem pairwise_escapes (offset : Nat) (t : Text) :
    (escapes offset t).Pairwise (fun e e' => e.1 < e'.1) ∧
      ∀ e ∈ escapes offset t, offset ≤ e.1 ∧ e.1 < offset + t.length := by
  fun_induction escapes offset t with
  | case1 => simp
  | case2 => simp
  | case3 offset d rest ih =>
    refine ⟨List.pairwise_cons.2 ⟨fun e he => ?_, ih.1⟩, List.forall_mem_cons.2 ⟨?_, fun e he => ?_⟩⟩
    · have := ih.2 e he
      simp only
      omega
    · simp only [List.length_cons]
      omega
    · have := ih.2 e he
      simp only [List.length_cons]
      omega
  | case4 offset d e rest hd ih =>
    refine ⟨ih.1, fun e' he' => ?_⟩
    have := ih.2 e' he'
    simp only [List.length_cons] at this ⊢
    omega

/-- `Escape ks n c rest`: in a literal of a source a backslash at `n` takes `c` along, and `rest` is what the literal says
after that. -/
def Escape (ks : List Token) (n : Nat) (c : CodePoint) (rest : Text) : Prop :=
  ∃ start front, IsLiteral ks start (front ++ ('\\' : CodePoint) :: c :: rest) ∧ Paired front ∧ n = start + front.length

/-- An escape stands in the source where it is said to. -/
theorem Escape.getElem? {ks : List Token} {t rest : Text} {n : Nat} {c : CodePoint} (h : Escape ks n c rest)
    (hks : Tiles 0 ks t) : t[n]? = some '\\' ∧ t[n + 1]? = some c := by
  obtain ⟨start, front, hliteral, -, rfl⟩ := h
  obtain ⟨before, after, rfl, rfl⟩ := hliteral.eq_append hks
  have hsplit : before ++ (front ++ ('\\' : CodePoint) :: c :: rest) ++ after =
      (before ++ front) ++ ('\\' : CodePoint) :: c :: (rest ++ after) := by simp
  rw [hsplit, ← List.length_append]
  refine ⟨by simp, ?_⟩
  rw [List.getElem?_append_right (Nat.le_add_right _ _), Nat.add_sub_cancel_left]
  rfl

/-- The escapes of a source, with where they stand, that a condition singles out. -/
def escapesWhere (p : CodePoint → Bool) (ks : List Token) : List (Nat × CodePoint) :=
  (literals none ks).flatMap fun l => (escapes l.1 l.2).filter fun e => p e.2

theorem mem_escapesWhere_iff (p : CodePoint → Bool) (ks : List Token) (e : Nat × CodePoint) :
    e ∈ escapesWhere p ks ↔ (∃ rest, Escape ks e.1 e.2 rest) ∧ p e.2 = true := by
  obtain ⟨n, c⟩ := e
  simp only [escapesWhere, List.mem_flatMap, List.mem_filter, mem_escapes_iff, Prod.exists, mem_literals_iff, Escape]
  constructor
  · rintro ⟨start, text, hliteral, ⟨front, rest, rfl, hfront, rfl⟩, hp⟩
    exact ⟨⟨rest, start, front, hliteral, hfront, rfl⟩, hp⟩
  · rintro ⟨⟨rest, start, front, hliteral, hfront, rfl⟩, hp⟩
    exact ⟨start, _, hliteral, ⟨front, rest, rfl, hfront, rfl⟩, hp⟩

theorem pairwise_escapesWhere (p : CodePoint → Bool) {ks : List Token} {t : Text} (h : Tiles 0 ks t) :
    (escapesWhere p ks).Pairwise fun e e' => e.1 < e'.1 := by
  refine List.pairwise_flatMap.2 ⟨fun l _ => (pairwise_escapes l.1 l.2).1.filter _, ?_⟩
  refine (pairwise_literals h none (by simp)).1.imp fun hapart e he e' he' => ?_
  have hlow := (pairwise_escapes _ _).2 e (List.mem_of_mem_filter he)
  have hhigh := (pairwise_escapes _ _).2 e' (List.mem_of_mem_filter he')
  omega

/-! ## What is reported -/

/-- The warning about an escape: what it says, and the line of the backslash. -/
def escapeWarning (t : Text) (e : Nat × CodePoint) : Notice :=
  ⟨.warning, "Invalid escape sequence \\" ++ [e.2] ++ " in double quoted string",
    some (((t.take e.1).count Text.lineFeed + 1 : Nat) : Int)⟩

/-- Some escapes, known by where they stand and what they take along, are what is warned about: once each, in the order in
which they stand. -/
def Warns (wrong : Nat → CodePoint → Prop) (t : Text) (notices : List Notice) : Prop :=
  ∃ places : List (Nat × CodePoint), places.Pairwise (fun e e' => e.1 < e'.1) ∧
    (∀ e, e ∈ places ↔ wrong e.1 e.2) ∧ notices = places.map (escapeWarning t)

/-- The same warnings are about as many escapes; so if all of the one kind are of the other, the two are the same. -/
theorem Warns.imp {wrong wrong' : Nat → CodePoint → Prop} {t : Text} {notices : List Notice} (h : Warns wrong t notices)
    (h' : Warns wrong' t notices) (himp : ∀ n c, wrong n c → wrong' n c) {n : Nat} {c : CodePoint} (hc : wrong' n c) :
    wrong n c := by
  obtain ⟨places, hplaces, hmem, rfl⟩ := h
  obtain ⟨places', -, hmem', hsame⟩ := h'
  have hlength : places'.length ≤ places.length := by
    have := congrArg List.length hsame
    rw [List.length_map, List.length_map] at this
    exact Nat.le_of_eq this.symm
  have hnodup : places.Nodup := by
    refine hplaces.imp fun {e e'} hlt => ?_
    rintro rfl
    exact Nat.lt_irrefl _ hlt
  have hsubset : places ⊆ places' := fun e he => (hmem' e).2 (himp _ _ ((hmem e).1 he))
  have hperm := (hnodup.subperm hsubset).perm_of_length_le hlength
  exact (hmem (n, c)).1 (hperm.mem_iff.2 ((hmem' (n, c)).2 hc))

/-- Of some escapes, the ones that are not known are warned about, in their order. -/
theorem filterMap_escapeWarning (t : Text) (es : List (Nat × CodePoint)) :
    (es.filterMap fun (e : Nat × CodePoint) => if isKnownEscape e.2 then none
      else some (Notice.at .warning ("Invalid escape sequence \\" ++ [e.2] ++ " in double quoted string") t e.1)) =
    (es.filter fun e => !isKnownEscape e.2).map (escapeWarning t) := by
  induction es with
  | nil => rfl
  | cons e es ih =>
    by_cases he : isKnownEscape e.2 = true
    · rw [List.filterMap_cons, List.filter_cons_of_neg (by simp [he])]
      simp only [he, if_true]
      exact ih
    · rw [Bool.not_eq_true] at he
      rw [List.filterMap_cons, List.filter_cons_of_pos (by simp [he]), List.map_cons]
      simp only [he, Bool.false_eq_true, if_false]
      exact congrArg₂ List.cons rfl ih

/-- What the check warns about are the escapes whose code point is not among the known ones. -/
theorem warns_checkEscapes {ks : List Token} {t : Text} (h : Tiles 0 ks t) :
    Warns (fun n c => (∃ rest, Escape ks n c rest) ∧ isKnownEscape c = false) t (checkEscapes ks t) := by
  refine ⟨escapesWhere (!isKnownEscape ·) ks, pairwise_escapesWhere _ h, ?_, ?_⟩
  · intro e
    rw [mem_escapesWhere_iff, Bool.not_eq_true']
  · rw [escapesWhere, List.map_flatMap]
    refine List.flatMap_congr ?_
    intro l _
    exact filterMap_escapeWarning t _

/-- What PHP puts something else in the place of: a backslash and one of some code points, or with `u` and an opening brace. -/
def IsInterpreted (c : CodePoint) (rest : Text) : Prop :=
  c ∈ Text.ofString "nrtvef\\$\"01234567x" ∨ c = 'u' ∧ rest.head? = some ('\x7b' : CodePoint)

theorem isKnownEscape_eq_true_iff (c : CodePoint) :
    isKnownEscape c = true ↔ c ∈ Text.ofString "nrtvef\\$\"01234567x" ∨ c = 'u' ∨ c = '\x7b' := by
  have hsplit : Text.ofString "nrtvef\\$\"01234567xu\x7b" =
      Text.ofString "nrtvef\\$\"01234567x" ++ [('u' : CodePoint), ('\x7b' : CodePoint)] := by decide
  rw [isKnownEscape, List.contains_iff_mem, hsplit, List.mem_append]
  simp

/-- For any tokens that tile a source, the check warns about the escapes that take along a code point other than the known ones,
once each, in order, on the line of the backslash, which stands in the source where it is said to. These are the escapes that
PHP leaves as they are exactly when no literal escapes an opening brace, or a `u` that no opening brace follows in it. -/
theorem escapes_reported_iff (php : Tokenizer) (t : Text) :
    (∀ n c rest, Escape (php.tokens t) n c rest → t[n]? = some '\\' ∧ t[n + 1]? = some c) ∧
      Warns (fun n c => (∃ rest, Escape (php.tokens t) n c rest) ∧
          c ∉ Text.ofString "nrtvef\\$\"01234567x" ∧ c ≠ 'u' ∧ c ≠ '\x7b') t (checkEscapes (php.tokens t) t) ∧
      (Warns (fun n c => ∃ rest, Escape (php.tokens t) n c rest ∧ ¬ IsInterpreted c rest) t
          (checkEscapes (php.tokens t) t) ↔
        ∀ n c rest, Escape (php.tokens t) n c rest →
          c ≠ '\x7b' ∧ (c = 'u' → rest.head? = some ('\x7b' : CodePoint))) := by
  have hknown (c : CodePoint) : isKnownEscape c = false ↔
      c ∉ Text.ofString "nrtvef\\$\"01234567x" ∧ c ≠ 'u' ∧ c ≠ '\x7b' := by
    rw [← Bool.not_eq_true, isKnownEscape_eq_true_iff]
    simp only [not_or]
  have hleft {c : CodePoint} (hbase : c ∉ Text.ofString "nrtvef\\$\"01234567x") (hu : c ≠ 'u') (rest : Text) :
      ¬ IsInterpreted c rest := by
    rintro (hmem | ⟨hc, -⟩)
    · exact hbase hmem
    · exact hu hc
  have hwarns := warns_checkEscapes (php.tiles t)
  simp only [hknown] at hwarns
  refine ⟨fun n c rest h => h.getElem? (php.tiles t), hwarns, ?_, ?_⟩
  · intro hclaimed n c rest hescape
    -- The escapes that are warned about are among those that are to be, so all of those are warned about.
    have hall {rest : Text} (hescape : Escape (php.tokens t) n c rest) (hno : ¬ IsInterpreted c rest) :
        c ≠ 'u' ∧ c ≠ '\x7b' := by
      refine (hwarns.imp hclaimed (fun n c hwrong => ?_) ⟨rest, hescape, hno⟩).2.2
      obtain ⟨⟨rest, hrest⟩, hbase, hu, -⟩ := hwrong
      exact ⟨rest, hrest, hleft hbase hu rest⟩
    refine ⟨?_, ?_⟩
    · rintro rfl
      have hno : ¬ IsInterpreted '\x7b' rest := by
        rintro (hmem | ⟨hu, -⟩)
        · exact absurd hmem (by decide)
        · exact absurd hu (by decide)
      exact (hall hescape hno).2 rfl
    · rintro rfl
      by_contra hhead
      have hno : ¬ IsInterpreted 'u' rest := by
        rintro (hmem | ⟨-, hbrace⟩)
        · exact absurd hmem (by decide)
        · exact hhead hbrace
      exact (hall hescape hno).1 rfl
  · intro hnone
    obtain ⟨places, hplaces, hmem, heq⟩ := hwarns
    refine ⟨places, hplaces, fun e => ?_, heq⟩
    rw [hmem]
    constructor
    · rintro ⟨⟨rest, hescape⟩, hbase, hu, -⟩
      exact ⟨rest, hescape, hleft hbase hu rest⟩
    · rintro ⟨rest, hescape, hno⟩
      obtain ⟨hbrace, hu⟩ := hnone _ _ _ hescape
      exact ⟨⟨rest, hescape⟩, fun h => hno (.inl h), fun h => hno (.inr ⟨h, hu h⟩), hbrace⟩

/-- A literal with a `u` that is escaped, without a brace. -/
def bareEscape : Text := "<?php \"\\u\";"

theorem tokens_bareEscape : Php.tokens bareEscape =
    [⟨0, .tag, "<?php"⟩, ⟨5, .space, " "⟩, ⟨6, .doubleQuoted, "\""⟩, ⟨7, .doubleQuoted, "\\"⟩,
      ⟨8, .doubleQuoted, "u"⟩, ⟨9, .doubleQuoted, "\""⟩, ⟨10, .punctuation, ";"⟩] := by cbv

/-- An escape that PHP leaves as it is and nothing warns about. -/
theorem bare_escape_is_passed_over :
    Escape (Php.tokens bareEscape) 7 'u' "\"" ∧ ¬ IsInterpreted 'u' "\"" ∧
      checkEscapes (Php.tokens bareEscape) bareEscape = [] ∧
      ¬ Warns (fun n c => ∃ rest, Escape (Php.tokens bareEscape) n c rest ∧ ¬ IsInterpreted c rest) bareEscape
        (checkEscapes (Php.tokens bareEscape) bareEscape) := by
  have hescape : Escape (Php.tokens bareEscape) 7 'u' "\"" := by
    rw [tokens_bareEscape]
    refine ⟨6, "\"", ⟨[⟨0, .tag, "<?php"⟩, ⟨5, .space, " "⟩], ⟨6, .doubleQuoted, "\""⟩,
      [⟨7, .doubleQuoted, "\\"⟩, ⟨8, .doubleQuoted, "u"⟩, ⟨9, .doubleQuoted, "\""⟩], [⟨10, .punctuation, ";"⟩],
      rfl, by decide, by decide, by decide, rfl, by decide⟩, .plain (by decide) .nil, by decide⟩
  have hleft : ¬ IsInterpreted 'u' "\"" := by
    unfold IsInterpreted
    decide
  have hsilent : checkEscapes (Php.tokens bareEscape) bareEscape = [] := by
    rw [tokens_bareEscape]
    decide +kernel
  refine ⟨hescape, hleft, hsilent, ?_⟩
  rintro ⟨places, -, hmem, hnone⟩
  rw [hsilent] at hnone
  have hplace := (hmem (7, 'u')).2 ⟨_, hescape, hleft⟩
  rw [List.map_eq_nil_iff.1 hnone.symm] at hplace
  cases hplace

end SourceTidy.Task
