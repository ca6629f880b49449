import SourceTidy.Task.PlainText

/-!
# The first line that meets a condition

A line starts at the start of a text and behind each line feed, if anything is left there. The search for a line whose text meets
a condition gives the first place at which a line starts that does (`firstLine?_eq_some_iff`), and the search for a line that is
indented with something other than tabs is such a search (`spaceIndentation?_eq_firstLine?`).
-/

namespace SourceTidy

namespace Text

/-- `StartsLineFrom atStart t n`: in a text that is or is not read from a line's start on, a line starts at a place. -/
def StartsLineFrom (atStart : Bool) (t : Text) : Nat → Prop
  | 0 => atStart = true ∧ 0 < t.length
  | n + 1 => t[n]? = some lineFeed ∧ n + 1 < t.length

/-- A line starts at a place of a text. -/
abbrev StartsLine (t : Text) (n : Nat) : Prop := StartsLineFrom true t n

theorem startsLineFrom_nil (atStart : Bool) (n : Nat) : ¬ StartsLineFrom atStart [] n := by
  intro h
  cases n with
  | zero => exact absurd h.2 (Nat.lt_irrefl 0)
  | succ n => cases h.1

@[simp] theorem startsLineFrom_cons_zero (atStart : Bool) (c : CodePoint) (t : Text) :
    StartsLineFrom atStart (c :: t) 0 ↔ atStart = true := by
  simp [StartsLineFrom]

@[simp] theorem startsLineFrom_cons_succ (atStart : Bool) (c : CodePoint) (t : Text) (n : Nat) :
    StartsLineFrom atStart (c :: t) (n + 1) ↔ StartsLineFrom (c == lineFeed) t n := by
  cases n with
  | zero => simp [StartsLineFrom]
  | succ n => simp [StartsLineFrom]

theorem StartsLine.lt_length {t : Text} {n : Nat} (h : StartsLine t n) : n < t.length := by
  cases n with
  | zero => exact h.2
  | succ n => exact h.2

/-- Lines start at different places on different lines. -/
theorem StartsLine.eq_of_lineAt_eq {t : Text} {n m : Nat} (hn : StartsLine t n) (hm : StartsLine t m)
    (h : t.lineAt n = t.lineAt m) : n = m := by
  -- Behind the start of a line, there is a line feed before the start of the next one.
  have hlt {n m : Nat} (hm : StartsLine t m) (hnm : n < m) : t.lineAt n < t.lineAt m := by
    cases m with
    | zero => omega
    | succ m =>
      have hfeed : (t.take (m + 1)).count lineFeed = (t.take m).count lineFeed + 1 := by
        rw [List.take_add_one, List.count_append, hm.1]
        simp
      have hsub : (t.take n).count lineFeed ≤ (t.take m).count lineFeed :=
        (List.take_prefix_take_left (by omega)).sublist.count_le lineFeed
      simp only [lineAt]
      omega
  rcases Nat.lt_trichotomy n m with hnm | heq | hmn
  · exact absurd h (Nat.ne_of_lt (hlt hm hnm))
  · exact heq
  · exact absurd h.symm (Nat.ne_of_lt (hlt hn hmn))

end Text

namespace Task

/-- At a place a line starts that, with the text after it, meets a condition, and no line before it does. -/
def FirstLineFrom (p : Text → Bool) (atStart : Bool) (t : Text) (n : Nat) : Prop :=
  Text.StartsLineFrom atStart t n ∧ p (t.drop n) = true ∧
    ∀ m < n, Text.StartsLineFrom atStart t m → p (t.drop m) = false

/-- The first line of a text that meets a condition starts at a place. -/
abbrev FirstLine (p : Text → Bool) (t : Text) (n : Nat) : Prop := FirstLineFrom p true t n

theorem firstLineFrom_eq_some_iff (p : Text → Bool) (offset : Nat) (atStart : Bool) (t : Text) (n : Nat) :
    firstLineFrom p offset atStart t = some n ↔ ∃ m, n = offset + m ∧ FirstLineFrom p atStart t m := by
  induction t generalizing offset atStart with
  | nil =>
    refine iff_of_false (by simp [firstLineFrom]) ?_
    rintro ⟨m, -, hstart, -⟩
    exact Text.startsLineFrom_nil atStart m hstart
  | cons c t ih =>
    rw [firstLineFrom]
    by_cases hhere : (atStart && p (c :: t)) = true
    · rw [if_pos hhere]
      rw [Bool.and_eq_true] at hhere
      constructor
      · intro h
        refine ⟨0, (Option.some.inj h).symm, (Text.startsLineFrom_cons_zero _ _ _).2 hhere.1, hhere.2, ?_⟩
        intro m hm
        exact absurd hm (Nat.not_lt_zero m)
      · rintro ⟨m, rfl, -, -, hnone⟩
        cases m with
        | zero => rfl
        | succ m =>
          have := hnone 0 (Nat.succ_pos m) ((Text.startsLineFrom_cons_zero _ _ _).2 hhere.1)
          rw [List.drop_zero, hhere.2] at this
          cases this
    · rw [if_neg hhere, ih]
      rw [Bool.and_eq_true, not_and] at hhere
      constructor
      · rintro ⟨m, rfl, hstart, hp, hnone⟩
        refine ⟨m + 1, by omega, (Text.startsLineFrom_cons_succ _ _ _ _).2 hstart, hp, fun m' hm' hstart' => ?_⟩
        cases m' with
        | zero => exact Bool.not_eq_true _ ▸ hhere ((Text.startsLineFrom_cons_zero _ _ _).1 hstart')
        | succ m' => exact hnone m' (by omega) ((Text.startsLineFrom_cons_succ _ _ _ _).1 hstart')
      · rintro ⟨m, rfl, hstart, hp, hnone⟩
        cases m with
        | zero => exact absurd hp (hhere ((Text.startsLineFrom_cons_zero _ _ _).1 hstart))
        | succ m =>
          refine ⟨m, by omega, (Text.startsLineFrom_cons_succ _ _ _ _).1 hstart, hp, fun m' hm' hstart' => ?_⟩
          exact hnone (m' + 1) (by omega) ((Text.startsLineFrom_cons_succ _ _ _ _).2 hstart')

/-- The search gives the first place at which a line starts that meets the condition. -/
theorem firstLine?_eq_some_iff (p : Text → Bool) (t : Text) (n : Nat) :
    firstLine? p t = some n ↔ FirstLine p t n := by
  rw [firstLine?, firstLineFrom_eq_some_iff]
  simp

/-- Where a line starts that meets a condition, or before, the first line starts that does. -/
theorem exists_firstLine {p : Text → Bool} {t : Text} (n : Nat) (hstart : Text.StartsLine t n) (hp : p (t.drop n) = true) :
    ∃ m ≤ n, FirstLine p t m := by
  induction n using Nat.strongRecOn with
  | ind n ih =>
    by_cases hearlier : ∃ m < n, Text.StartsLine t m ∧ p (t.drop m) = true
    · obtain ⟨m, hm, hstart', hp'⟩ := hearlier
      obtain ⟨k, hk, hfirst⟩ := ih m hm hstart' hp'
      exact ⟨k, by omega, hfirst⟩
    · refine ⟨n, Nat.le_refl n, hstart, hp, fun m hm hstart' => ?_⟩
      rw [← Bool.not_eq_true]
      exact fun hp' => hearlier ⟨m, hm, hstart', hp'⟩

/-- Two conditions, one of which is narrower, are met first by the same line exactly when the first line that meets the wider one
meets the narrower one too. -/
theorem firstLine_iff_of_imp {p q : Text → Bool} (h : ∀ s, q s = true → p s = true) (t : Text) :
    (∀ n, FirstLine q t n ↔ FirstLine p t n) ↔ ∀ n, FirstLine p t n → q (t.drop n) = true := by
  constructor
  · intro hiff n hfirst
    exact ((hiff n).2 hfirst).2.1
  · intro hnarrow n
    constructor
    · rintro ⟨hstart, hq, hnone⟩
      obtain ⟨m, hm, hfirst⟩ := exists_firstLine n hstart (h _ hq)
      rcases Nat.lt_or_eq_of_le hm with hlt | rfl
      · have := hnone m hlt hfirst.1
        rw [hnarrow m hfirst] at this
        cases this
      · exact hfirst
    · intro hfirst
      refine ⟨hfirst.1, hnarrow n hfirst, fun m hm hstart => ?_⟩
      rw [← Bool.not_eq_true]
      intro hq
      have := hfirst.2.2 m hm hstart
      rw [h _ hq] at this
      cases this

theorem spaceIndentationFrom_eq_firstLineFrom (offset : Nat) (atStart : Bool) (t : Text) :
    Text.spaceIndentationFrom offset atStart t = firstLineFrom Text.isSpaceIndented offset atStart t := by
  induction t generalizing offset atStart with
  | nil => rfl
  | cons c t ih => rw [Text.spaceIndentationFrom, firstLineFrom, ih]

/-- The first line that is indented with something other than tabs is searched for as any other line. -/
theorem spaceIndentation?_eq_firstLine? (t : Text) : t.spaceIndentation? = firstLine? Text.isSpaceIndented t :=
  spaceIndentationFrom_eq_firstLineFrom 0 true t

end Task

end SourceTidy
