import SourceTidy.Text.CodePoint

/-!
# Code point order

The order of texts by code point is a strict total order: `lt` relates no text to itself, it is transitive, and it relates
any two different texts one way or the other. So the sorted list of different texts goes strictly upwards
(`pairwise_lt_sort`).
-/

namespace SourceTidy.Text

@[simp] theorem lt_irrefl (s : Text) : lt s s = false := by
  induction s with
  | nil => rfl
  | cons a s ih => simp [lt, ih]

/-- The comparison of two texts that are not empty, by their heads first. -/
theorem lt_cons_iff (a b : CodePoint) (s t : Text) :
    lt (a :: s) (b :: t) = true ↔ a.toNat < b.toNat ∨ a = b ∧ lt s t = true := by
  rw [lt]
  by_cases hab : a = b
  · subst hab
    simp
  · simp [hab]

theorem lt_trans {s t u : Text} (h : lt s t = true) (h' : lt t u = true) : lt s u = true := by
  induction s generalizing t u with
  | nil =>
    cases u with
    | nil => cases t <;> cases h'
    | cons c u => rfl
  | cons a s ih =>
    cases t with
    | nil => cases h
    | cons b t =>
      cases u with
      | nil => cases h'
      | cons c u =>
        rw [lt_cons_iff] at h h' ⊢
        rcases h with h | ⟨rfl, h⟩
        · rcases h' with h' | ⟨rfl, -⟩
          · exact .inl (Nat.lt_trans h h')
          · exact .inl h
        · rcases h' with h' | ⟨rfl, h'⟩
          · exact .inl h'
          · exact .inr ⟨rfl, ih h h'⟩

/-- Of two texts one comes before the other, or they are equal. -/
theorem lt_or_eq_or_lt (s t : Text) : lt s t = true ∨ s = t ∨ lt t s = true := by
  induction s generalizing t with
  | nil =>
    cases t with
    | nil => exact .inr (.inl rfl)
    | cons b t => exact .inl rfl
  | cons a s ih =>
    cases t with
    | nil => exact .inr (.inr rfl)
    | cons b t =>
      rw [lt_cons_iff, lt_cons_iff]
      rcases Nat.lt_trichotomy a.toNat b.toNat with h | h | h
      · exact .inl (.inl h)
      · obtain rfl := CodePoint.ext h
        rcases ih t with ih | rfl | ih
        · exact .inl (.inr ⟨rfl, ih⟩)
        · exact .inr (.inl rfl)
        · exact .inr (.inr (.inr ⟨rfl, ih⟩))
      · exact .inr (.inr (.inl h))

theorem lt_asymm {s t : Text} (h : lt s t = true) : lt t s = false := by
  cases h' : lt t s with
  | false => rfl
  | true =>
    have := lt_trans h h'
    rw [lt_irrefl] at this
    cases this

/-- A text is not after another when it comes before it, or is equal to it. -/
theorem le_iff (s t : Text) : le s t = true ↔ lt s t = true ∨ s = t := by
  rw [le, Bool.not_eq_true']
  constructor
  · intro h
    rcases lt_or_eq_or_lt s t with h' | h' | h'
    · exact .inl h'
    · exact .inr h'
    · rw [h] at h'
      cases h'
  · rintro (h | rfl)
    · exact lt_asymm h
    · exact lt_irrefl s

@[simp] theorem mem_sort {t : Text} {ts : List Text} : t ∈ sort ts ↔ t ∈ ts := List.mem_mergeSort

/-- Different texts go strictly upwards when they are sorted. -/
theorem pairwise_lt_sort {ts : List Text} (h : ts.Nodup) : (sort ts).Pairwise fun s t => lt s t = true := by
  have htrans (s t u : Text) (h : le s t = true) (h' : le t u = true) : le s u = true := by
    rw [le_iff] at h h' ⊢
    rcases h with h | rfl
    · rcases h' with h' | rfl
      · exact .inl (lt_trans h h')
      · exact .inl h
    · exact h'
  have htotal (s t : Text) : (le s t || le t s) = true := by
    rw [Bool.or_eq_true, le_iff, le_iff]
    rcases lt_or_eq_or_lt s t with h | h | h
    · exact .inl (.inl h)
    · exact .inl (.inr h)
    · exact .inr (.inl h)
  have hle := List.pairwise_mergeSort htrans htotal ts
  have hne : (sort ts).Nodup := (List.mergeSort_perm ts le).nodup_iff.2 h
  refine (hle.and hne).imp fun hst => ?_
  exact ((le_iff _ _).1 hst.1).resolve_right hst.2

end SourceTidy.Text
