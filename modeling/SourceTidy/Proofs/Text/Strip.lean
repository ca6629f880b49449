import Mathlib.Data.List.DropRight
import SourceTidy.Text.Category

/-!
# Stripped texts

A text without the blanks at its ends has none left there, so to strip it once more changes nothing (`strip_strip`).
-/

namespace SourceTidy.Text

/-- Dropping from the right is what the library knows under this name. -/
theorem dropRightWhile_eq_rdropWhile (p : CodePoint → Bool) (t : Text) : dropRightWhile p t = t.rdropWhile p := by
  induction t using List.reverseRecOn with
  | nil => rfl
  | append_singleton t c ih =>
    rw [List.rdropWhile_concat, ← ih, dropRightWhile, List.foldr_append]
    by_cases hc : p c = true
    · simp [hc, dropRightWhile]
    · have hkeep : t.foldr (fun c rest => if rest.isEmpty && p c then [] else c :: rest) [c] = t ++ [c] := by
        clear ih
        induction t with
        | nil => rfl
        | cons d t ih =>
          rw [List.foldr_cons, ih]
          simp
      rw [if_neg hc, ← hkeep, List.foldr_cons, List.foldr_nil, Bool.not_eq_true (p c) |>.mp hc]
      rfl

theorem dropRightWhile_sublist (p : CodePoint → Bool) (t : Text) : (dropRightWhile p t).Sublist t := by
  rw [dropRightWhile_eq_rdropWhile]
  exact (List.rdropWhile_prefix p t).sublist

/-- What starts with no code point of a class still does without those at its end. -/
theorem dropWhile_dropRightWhile {p : CodePoint → Bool} {t : Text} (h : t.dropWhile p = t) :
    (dropRightWhile p t).dropWhile p = dropRightWhile p t := by
  rw [List.dropWhile_eq_self_iff] at h ⊢
  intro hpos
  have hstart : dropRightWhile p t <+: t := dropRightWhile_eq_rdropWhile p t ▸ List.rdropWhile_prefix p t
  have hlength := hstart.length_le
  rw [hstart.getElem hpos]
  exact h (Nat.lt_of_lt_of_le hpos hlength)

@[simp] theorem strip_strip (t : Text) : t.strip.strip = t.strip := by
  have hleft : (t.dropWhile CodePoint.isBlank).dropWhile CodePoint.isBlank = t.dropWhile CodePoint.isBlank :=
    List.dropWhile_idempotent CodePoint.isBlank t
  rw [strip, strip, dropWhile_dropRightWhile hleft, dropRightWhile_eq_rdropWhile, dropRightWhile_eq_rdropWhile]
  exact List.rdropWhile_idempotent CodePoint.isBlank _

end SourceTidy.Text
