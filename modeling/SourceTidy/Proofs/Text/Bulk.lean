import SourceTidy.Text.Lines

/-!
# What stands between line ends

The bulk of a text is how many of its code points belong to no line end. Corrections may exchange line ends and add one at
the end, but none of them adds to the bulk; so a text whose bulk has shrunk never comes back.
-/

namespace SourceTidy.Text

/-- The number of code points of a text that are no part of a line end. -/
def bulk (t : Text) : Nat := t.countP fun c => c != carriageReturn && c != lineFeed

@[simp] theorem bulk_nil : bulk [] = 0 := rfl

@[simp] theorem bulk_append (s t : Text) : bulk (s ++ t) = bulk s + bulk t := List.countP_append

theorem bulk_cons (c : CodePoint) (t : Text) : bulk (c :: t) = bulk [c] + bulk t := bulk_append [c] t

theorem bulk_le_length (t : Text) : bulk t ≤ t.length := List.countP_le_length

/-- Leaving out code points does not add to the bulk. -/
theorem bulk_le_of_sublist {s t : Text} (h : s.Sublist t) : bulk s ≤ bulk t := h.countP_le

theorem bulk_asciiLower (t : Text) : bulk t.asciiLower = bulk t := by
  unfold bulk asciiLower
  rw [List.countP_map]
  refine List.countP_congr fun c _ => ?_
  have hne (d : CodePoint) (hd : d.toNat < 0x41) : c.asciiLower = d ↔ c = d := by
    unfold CodePoint.asciiLower
    split
    · rename_i hupper
      simp only [CodePoint.within, decide_eq_true_eq] at hupper
      constructor
      · intro h
        have := congrArg CodePoint.toNat h
        rw [CodePoint.ofNat, dif_pos (by omega)] at this
        simp only at this
        omega
      · intro h
        subst h
        omega
    · exact Iff.rfl
  simp [hne _ (show carriageReturn.toNat < 0x41 by decide), hne _ (show lineFeed.toNat < 0x41 by decide)]

end SourceTidy.Text
