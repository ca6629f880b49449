import Mathlib.Data.List.TakeWhile
import SourceTidy.Php.Rules

/-!
# What scans take

Scans are put together from smaller ones, and so is what is known of the code points that they take: a scan may take nothing but
blanks (`TakesBlanks`), or start with a certain code point (`TakesFrom`).
-/

namespace SourceTidy

theorem Text.dropPrefix?_eq_some_iff (s t rest : Text) : dropPrefix? t s = some rest ↔ t = s ++ rest := by
  induction s generalizing t with
  | nil => cases t <;> simp [dropPrefix?]
  | cons p s ih =>
    cases t with
    | nil => simp [dropPrefix?]
    | cons c t =>
      rw [dropPrefix?]
      by_cases hc : c = p
      · simp [hc, ih]
      · simp [hc]

theorem Text.startsWith_iff (t s : Text) : startsWith t s = true ↔ ∃ rest, t = s ++ rest := by
  simp only [startsWith, Option.isSome_iff_exists, dropPrefix?_eq_some_iff]

namespace Php.Scan

theorem exact_eq_some_iff (s t : Text) (n : Nat) : exact s t = some n ↔ (∃ rest, t = s ++ rest) ∧ s.length = n := by
  rw [← Text.startsWith_iff, exact, Option.ite_none_right_eq_some, Option.some.injEq]

theorem andThen_eq_some_iff (a b : Scan) (t : Text) (n : Nat) :
    andThen a b t = some n ↔ ∃ m k, a t = some m ∧ b (t.drop m) = some k ∧ m + k = n := by
  simp [andThen, Option.bind_eq_some_iff]

theorem take_of_exact {s t : Text} {n : Nat} (h : exact s t = some n) : t.take n = s := by
  obtain ⟨⟨rest, rfl⟩, rfl⟩ := (exact_eq_some_iff s t n).1 h
  exact List.take_left

theorem eq_some_of_orElse {a b : Scan} {t : Text} {n : Nat} (h : orElse a b t = some n) : a t = some n ∨ b t = some n := by
  rw [orElse] at h
  cases ha : a t with
  | none => exact .inr (by rwa [ha] at h)
  | some m => exact .inl (by rwa [ha] at h)

theorem take_of_optional_exact {s t : Text} {n : Nat} (h : optional (exact s) t = some n) : t.take n = [] ∨ t.take n = s := by
  rw [optional, Option.some.injEq] at h
  cases hexact : exact s t with
  | none =>
    rw [hexact] at h
    subst h
    exact .inl rfl
  | some m =>
    rw [hexact] at h
    subst h
    exact .inr (take_of_exact hexact)

theorem take_takeWhile (p : CodePoint → Bool) (t : Text) : t.take (t.takeWhile p).length = t.takeWhile p :=
  (List.prefix_iff_eq_take.1 (List.takeWhile_prefix p)).symm

/-- Part of a run of code points of a class. -/
theorem mem_take_of_le_takeWhile {p : CodePoint → Bool} {t : Text} {n : Nat} (h : n ≤ (t.takeWhile p).length) {c : CodePoint}
    (hc : c ∈ t.take n) : p c = true := by
  have hmem : c ∈ t.takeWhile p := take_takeWhile p t ▸ (List.take_sublist_take_left h).subset hc
  exact List.mem_takeWhile_imp hmem

/-- One of some words, whatever the case of its letters, is taken. -/
theorem take_of_wordAmong {words : List Text} {t : Text} {n : Nat} (h : wordAmong words t = some n) :
    (t.take n).map bareCase ∈ words := by
  rw [wordAmong, Option.ite_none_right_eq_some, Option.some.injEq] at h
  obtain ⟨hmem, rfl⟩ := h
  rw [take_takeWhile]
  exact List.contains_iff_mem.1 hmem

/-- A name lies in the text that it is read from. -/
theorem le_length_of_simpleName {t : Text} {n : Nat} (h : simpleName t = some n) : n ≤ t.length := by
  obtain ⟨m, k, hm, hk, rfl⟩ := (andThen_eq_some_iff _ _ t n).1 h
  have hrest : k ≤ (t.drop m).length := by
    cases hk
    exact (List.takeWhile_prefix continuesSimpleName).length_le
  cases t with
  | nil => cases hm
  | cons c t =>
    rw [one, Option.ite_none_right_eq_some] at hm
    cases hm.2
    rw [List.length_drop, List.length_cons] at hrest
    rw [List.length_cons]
    omega

/-! ## Cases -/

theorem bareCase_of_lt {c : CodePoint} (h : c.toNat < 0x80) : bareCase c = c.asciiLower := by
  have hbeyond : ¬ (c.toNat = 0x130 || c.toNat = 0x131) = true := by
    simp only [Bool.or_eq_true, decide_eq_true_eq]
    omega
  rw [bareCase, if_neg (by omega), if_neg (by omega), if_neg hbeyond]

theorem toNat_asciiLower {c : CodePoint} (hupper : c.within 0x41 0x5A = true) :
    c.asciiLower.toNat = c.toNat + 0x20 ∧ 0x41 ≤ c.toNat ∧ c.toNat ≤ 0x5A := by
  rw [CodePoint.asciiLower, if_pos hupper, CodePoint.ofNat]
  simp only [CodePoint.within, decide_eq_true_eq] at hupper
  rw [dif_pos (by omega)]
  exact ⟨rfl, hupper⟩

theorem bareCase_asciiLower (c : CodePoint) : bareCase c.asciiLower = bareCase c := by
  by_cases hupper : c.within 0x41 0x5A = true
  · obtain ⟨hlower, hlow, hhigh⟩ := toNat_asciiLower hupper
    rw [bareCase_of_lt (by omega), bareCase_of_lt (c := c) (by omega)]
    refine if_neg ?_
    simp only [CodePoint.within, decide_eq_true_eq]
    omega
  · rw [CodePoint.asciiLower, if_neg hupper]

theorem isWord_asciiLower (c : CodePoint) : c.asciiLower.isWord = c.isWord := by
  by_cases hupper : c.within 0x41 0x5A = true
  · obtain ⟨hlower, hlow, hhigh⟩ := toNat_asciiLower hupper
    rw [CodePoint.isWord, CodePoint.isWord, if_pos (by omega), if_pos (by omega)]
    have hletter : c.isAsciiLetter = true ∧ c.asciiLower.isAsciiLetter = true := by
      simp only [CodePoint.isAsciiLetter, CodePoint.within, Bool.or_eq_true, decide_eq_true_eq]
      omega
    rw [hletter.1, hletter.2, Bool.true_or, Bool.true_or, Bool.true_or, Bool.true_or]
  · rw [CodePoint.asciiLower, if_neg hupper]

theorem map_bareCase_asciiLower (t : Text) : t.asciiLower.map bareCase = t.map bareCase := by
  rw [Text.asciiLower, List.map_map]
  exact List.map_congr_left fun c _ => bareCase_asciiLower c

/-! ## Blanks -/

/-- A scan that takes blanks alone. -/
def TakesBlanks (scan : Scan) : Prop := ∀ t n, scan t = some n → ∀ c ∈ t.take n, c.isBlank = true

theorem takesBlanks_blanks : TakesBlanks blanks := by
  rintro t n ⟨⟩ c hc
  exact mem_take_of_le_takeWhile (Nat.le_refl _) hc

theorem takesBlanks_blanks1 : TakesBlanks blanks1 := by
  intro t n hn c hc
  rw [blanks1, some1] at hn
  split at hn
  · cases hn
  · rename_i m hm
    cases hn
    exact mem_take_of_le_takeWhile (Nat.le_of_eq rfl) hc

theorem takesBlanks_one : TakesBlanks (one CodePoint.isBlank) := by
  intro t n hn c hc
  rw [one] at hn
  split at hn
  · rename_i hhead
    cases hn
    cases t with
    | nil => cases hc
    | cons d t =>
      rw [List.mem_singleton.1 hc]
      exact hhead
  · cases hn

theorem takesBlanks_ahead (c : CodePoint) : TakesBlanks (ahead c) := by
  intro t n hn d hd
  rw [ahead] at hn
  split at hn <;> cases hn
  cases hd

/-- The blanks before a name end where the run of blanks does, or earlier. -/
theorem takesBlanks_blanksBefore (startsIt : CodePoint → Bool) : TakesBlanks (blanksBefore startsIt) := by
  intro t n hn c hc
  rw [blanksBefore] at hn
  split at hn
  · cases hn
  · rename_i d front hfront
    cases hn
    refine mem_take_of_le_takeWhile ?_ hc
    have hle := (List.dropWhile_sublist (!startsIt ·)
      (l := (t.take ((t.takeWhile CodePoint.isBlank).length + 1)).reverse)).length_le
    rw [hfront, List.length_cons, List.length_reverse] at hle
    exact Nat.le_of_succ_le_succ (Nat.le_trans hle (List.length_take_le _ _))

theorem TakesBlanks.andThen {a b : Scan} (ha : TakesBlanks a) (hb : TakesBlanks b) : TakesBlanks (andThen a b) := by
  intro t n hn c hc
  obtain ⟨m, k, hm, hk, rfl⟩ := (andThen_eq_some_iff a b t n).1 hn
  rw [List.take_add] at hc
  rcases List.mem_append.1 hc with hc | hc
  · exact ha t m hm c hc
  · exact hb (t.drop m) k hk c hc

/-! ## The code point that comes first -/

/-- A scan that takes a certain code point and perhaps more. -/
def TakesFrom (c : CodePoint) (scan : Scan) : Prop := ∀ t n, scan t = some n → ∃ rest, t.take n = c :: rest

theorem takesFrom_exact {c : CodePoint} {s s' : Text} (hs : s = c :: s') : TakesFrom c (exact s) := by
  intro t n hn
  exact ⟨s', (take_of_exact hn).trans hs⟩

theorem TakesFrom.andThen {c : CodePoint} {a : Scan} (ha : TakesFrom c a) (b : Scan) : TakesFrom c (andThen a b) := by
  intro t n hn
  obtain ⟨m, k, hm, hk, rfl⟩ := (andThen_eq_some_iff a b t n).1 hn
  obtain ⟨rest, hrest⟩ := ha t m hm
  rw [List.take_add, hrest, List.cons_append]
  exact ⟨_, rfl⟩

end Php.Scan
end SourceTidy
