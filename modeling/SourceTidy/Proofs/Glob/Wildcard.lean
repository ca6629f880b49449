import SourceTidy.Glob.Mask

/-!
# What a wildcard covers

Matching fills a table from the end of the wildcard, with one entry for each end of the name. The table of a shorter name is the
end of that of a longer one (`table_cons`), so matching obeys equations in the name as well as in the wildcard, and it decides
the relation `Covers` (`fits_iff_covers`).
-/

namespace SourceTidy

namespace Wildcard

theorem anyAfter_cons (b : Bool) (rest : List Bool) :
    anyAfter (b :: rest) = (b || (anyAfter rest).headD false) :: anyAfter rest := rfl

theorem table_star (name : Text) (w : Wildcard) : table name (.star :: w) = anyAfter (table name w) := rfl

theorem table_one {a : Atom} (ha : a ≠ .star) (name : Text) (w : Wildcard) :
    table name (a :: w) = List.zipWith (fun c b => a.holds c && b) name (table name w).tail ++ [false] := by
  cases a with
  | star => exact absurd rfl ha
  | any => rfl
  | literal d => rfl
  | oneOf negated ranges => rfl

theorem table_ne_nil (name : Text) (w : Wildcard) : table name w ≠ [] := by
  induction w with
  | nil => exact List.append_ne_nil_of_right_ne_nil _ (by simp)
  | cons a w ih =>
    by_cases ha : a = .star
    · obtain ⟨b, rest, hb⟩ := List.exists_cons_of_ne_nil ih
      rw [ha, table_star, hb, anyAfter_cons]
      exact List.cons_ne_nil _ _
    · rw [table_one ha]
      exact List.append_ne_nil_of_right_ne_nil _ (by simp)

/-- A table starts with the entry for the whole name. -/
theorem table_eq (name : Text) (w : Wildcard) : table name w = fits w name :: (table name w).tail := by
  obtain ⟨b, rest, hb⟩ := List.exists_cons_of_ne_nil (table_ne_nil name w)
  rw [fits, hb]
  rfl

/-- What follows in it is the table of the name without its first code point. -/
theorem table_tail (c : CodePoint) (name : Text) (w : Wildcard) : (table (c :: name) w).tail = table name w := by
  induction w with
  | nil => rfl
  | cons a w ih =>
    by_cases ha : a = .star
    · rw [ha, table_star, table_star, table_eq (c :: name) w, ih, anyAfter_cons]
      rfl
    · rw [table_one ha, table_one ha, ih, table_eq name w, List.zipWith_cons_cons]
      rfl

theorem table_nil_tail (w : Wildcard) : (table [] w).tail = [] := by
  induction w with
  | nil => rfl
  | cons a w ih =>
    by_cases ha : a = .star
    · rw [ha, table_star, table_eq [] w, ih, anyAfter_cons]
      rfl
    · rw [table_one ha]
      rfl

/-! ## Equations -/

section Equations

variable (c : CodePoint) (name : Text) (w : Wildcard)

theorem fits_star_nil : fits (.star :: w) [] = fits w [] := by
  rw [fits, table_star, table_eq [] w, table_nil_tail, anyAfter_cons]
  exact Bool.or_false _

theorem fits_star_cons : fits (.star :: w) (c :: name) = (fits w (c :: name) || fits (.star :: w) name) := by
  rw [fits, table_star, table_eq (c :: name) w, table_tail, anyAfter_cons]
  rfl

theorem fits_one_nil {a : Atom} (ha : a ≠ .star) : fits (a :: w) [] = false := by
  rw [fits, table_one ha]
  rfl

theorem fits_one_cons {a : Atom} (ha : a ≠ .star) : fits (a :: w) (c :: name) = (a.holds c && fits w name) := by
  rw [fits, table_one ha, table_tail, table_eq name w]
  rfl

end Equations

/-- A star covers nothing, or one code point more. -/
theorem covers_star_iff {w : Wildcard} {name : Text} :
    Covers (.star :: w) name ↔ ∃ s t, name = s ++ t ∧ Covers w t := by
  constructor
  · intro h
    cases h with
    | star s hw => exact ⟨s, _, rfl, hw⟩
    | one ha _ => cases ha
  · rintro ⟨s, t, rfl, hw⟩
    exact .star s hw

theorem fits_star_iff (w : Wildcard) (name : Text) :
    fits (.star :: w) name = true ↔ ∃ s t, name = s ++ t ∧ fits w t = true := by
  induction name with
  | nil =>
    rw [fits_star_nil]
    constructor
    · exact fun h => ⟨[], [], rfl, h⟩
    · rintro ⟨s, t, hst, h⟩
      rwa [(List.append_eq_nil_iff.1 hst.symm).2] at h
  | cons c name ih =>
    rw [fits_star_cons, Bool.or_eq_true, ih]
    constructor
    · rintro (h | ⟨s, t, rfl, h⟩)
      · exact ⟨[], c :: name, rfl, h⟩
      · exact ⟨c :: s, t, rfl, h⟩
    · rintro ⟨s, t, hst, h⟩
      rcases List.cons_eq_append_iff.1 hst with ⟨rfl, rfl⟩ | ⟨s, rfl, rfl⟩
      · exact .inl h
      · exact .inr ⟨s, t, rfl, h⟩

/-- Matching decides what a wildcard covers. -/
theorem fits_iff_covers (w : Wildcard) (name : Text) : fits w name = true ↔ Covers w name := by
  induction w generalizing name with
  | nil =>
    cases name with
    | nil => exact iff_of_true rfl .nil
    | cons c name => exact iff_of_false Bool.false_ne_true (fun h => nomatch h)
  | cons a w ih =>
    by_cases ha : a = .star
    · rw [ha, fits_star_iff, covers_star_iff]
      simp only [ih]
    · cases name with
      | nil =>
        rw [fits_one_nil w ha]
        refine iff_of_false Bool.false_ne_true fun h => ?_
        generalize hname : ([] : Text) = name at h
        cases h with
        | star s _ => exact ha rfl
        | one _ _ => cases hname
      | cons c name =>
        rw [fits_one_cons c name w ha, Bool.and_eq_true, ih]
        constructor
        · exact fun ⟨hc, hw⟩ => .one hc hw
        · intro h
          generalize hname : c :: name = t at h
          cases h with
          | star s _ => exact absurd rfl ha
          | one hc hw =>
            cases hname
            exact ⟨hc, hw⟩

/-- What a wildcard covers ends with the code point that the wildcard ends with. -/
theorem Covers.getLast? {w : Wildcard} {t : Text} (h : Covers w t) {c : CodePoint}
    (hc : w.getLast? = some (.literal c)) : t.getLast? = some c := by
  induction h with
  | nil => cases hc
  | @star s w t hw ih =>
    cases w with
    | nil => cases hc
    | cons a w =>
      rw [List.getLast?_cons_cons] at hc
      rw [List.getLast?_append, ih hc]
      rfl
  | @one a d w t ha hw ih =>
    cases w with
    | nil =>
      cases hw
      cases hc
      rw [beq_iff_eq.1 ha]
      rfl
    | cons b w =>
      rw [List.getLast?_cons_cons] at hc
      rw [List.getLast?_cons, ih hc]
      rfl

end Wildcard

/-- A name that fits a mask ends, but for case, as one of the wildcards of the mask does. -/
theorem Mask.getLast?_of_accepts {mask name : Text} (hmask : isNegated mask = false) {ends : List CodePoint}
    (hends : ∀ alternative ∈ alternatives mask,
      ∃ c ∈ ends, (Wildcard.ofText alternative.caseFold).getLast? = some (.literal c))
    (h : accepts mask name = true) : ∃ c ∈ ends, name.caseFold.getLast? = some c := by
  rw [accepts, hmask, Bool.bne_false, List.any_eq_true] at h
  obtain ⟨alternative, hmem, hcovers⟩ := h
  obtain ⟨c, hc, hlast⟩ := hends alternative hmem
  exact ⟨c, hc, ((Wildcard.fits_iff_covers _ _).1 hcovers).getLast? hlast⟩

end SourceTidy
