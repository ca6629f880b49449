import SourceTidy.Proofs.Tree.Descent
import SourceTidy.Proofs.Tree.Replace

/-!
# Room for a temporary file

A replacement makes a temporary file beside the file to be replaced, and its name is longer. In a well-formed tree that is all
that can go wrong with a replacement: it is refused exactly when that name, or the path with it, is too long for the system
(`WellFormed.replace_eq`). Whether there is room is seen from the outline of the tree, so writing to files does not change it.
-/

namespace SourceTidy

/-! ## Paths without a null -/

theorem Text.mem_of_mem_join {c : CodePoint} {separator : Text} {ts : List Text} (h : c ∈ join separator ts) :
    c ∈ separator ∨ ∃ t ∈ ts, c ∈ t := by
  induction ts using List.reverseRecOn with
  | nil => cases h
  | append_singleton ts n ih =>
    rw [join_concat] at h
    split at h
    · exact .inr ⟨n, List.mem_append_right ts List.mem_cons_self, h⟩
    · rw [List.mem_append, List.mem_append] at h
      rcases h with (h | h) | h
      · exact (ih h).imp_right fun ⟨t, ht, hc⟩ => ⟨t, List.mem_append_left _ ht, hc⟩
      · exact .inl h
      · exact .inr ⟨n, List.mem_append_right ts List.mem_cons_self, h⟩

theorem Text.null_notMem_ofNat (n : Nat) : Path.null ∉ Text.ofNat n := by
  intro h
  obtain ⟨c, hc, he⟩ := List.mem_map.1 h
  obtain rfl : c = Char.ofNat 0 := CodePoint.ofChar_injective (he.trans (by decide))
  rw [Nat.toList_repr] at hc
  exact absurd (Nat.isDigit_of_mem_toDigits (by decide) (by decide) hc) (by decide)

namespace Tree

theorem null_notMem_text_pathOf {l : Location} (hl : ∀ n ∈ l, Path.null ∉ n) : Path.null ∉ (pathOf l).text := by
  intro h
  rcases List.mem_cons.1 h with h | h
  · exact absurd h (by decide)
  · rcases Text.mem_of_mem_join h with h | ⟨n, hn, h⟩
    · exact absurd h (by decide)
    · exact hl n hn h

/-- The name of a temporary file has no null if the name of the file has none. -/
theorem null_notMem_temporaryNumber {l : Location} (hl : ∀ n ∈ l, Path.null ∉ n) (number : Nat) :
    ∀ n ∈ temporaryNumber l number, Path.null ∉ n := by
  have hlast : Path.null ∉ l.getLast?.getD [] := by
    cases hlast : l.getLast? with
    | none => exact List.not_mem_nil
    | some n => exact hl n (List.mem_of_getLast? hlast)
  intro n hn
  rcases List.mem_append.1 hn with hn | hn
  · exact hl n (List.dropLast_subset l hn)
  · obtain rfl := List.mem_singleton.1 hn
    simp only [List.mem_append, not_or]
    refine ⟨⟨⟨⟨⟨by decide, hlast⟩, by decide⟩, fun h => ?_⟩, Text.null_notMem_ofNat number⟩, by decide⟩
    exact absurd (List.eq_of_mem_replicate h) (by decide)

/-! ## Making the temporary file -/

/-- Whether neither the name nor the path of the temporary file beside a location is too long for the system. -/
def hasRoomBeside (t : Tree) (l : Location) : Bool :=
  decide (Utf8.size (pathOf (t.temporaryBeside l)).text ≤ longestPath ∧
    Utf8.size ((t.temporaryBeside l).getLast?.getD []) ≤ longestName)

/-- Where the temporary file goes is seen from the outline. -/
@[simp] theorem temporaryBeside_outline (t : Tree) (l : Location) : t.outline.temporaryBeside l = t.temporaryBeside l := by
  simp [temporaryBeside]

theorem temporaryBeside_eq_temporaryNumber (t : Tree) (l : Location) : ∃ n, t.temporaryBeside l = temporaryNumber l n :=
  ⟨_, rfl⟩

/-- The temporary file beside an entry can be made if there is room for it, and otherwise its name is too long. -/
theorem WellFormed.perform_create_temporaryBeside {t : Tree} (ht : t.WellFormed) {l : Location} (hl : l ∈ t.locations) :
    t.perform (.create (t.temporaryBeside l)) =
      if t.hasRoomBeside l then .ok (t.put (t.temporaryBeside l) (.file privateMode [])) else .error .nameTooLong := by
  have hfree := t.get?_temporaryBeside l
  have hparent : t.get? (t.temporaryBeside l).dropLast = some .directory := by
    obtain ⟨number, hnumber⟩ := t.temporaryBeside_eq_temporaryNumber l
    rw [hnumber, dropLast_temporaryNumber]
    exact ht.parent l hl
  have hnull : Path.null ∉ (pathOf (t.temporaryBeside l)).text := by
    obtain ⟨number, hnumber⟩ := t.temporaryBeside_eq_temporaryNumber l
    rw [hnumber]
    exact null_notMem_text_pathOf (null_notMem_temporaryNumber (fun n hn => (ht.isName l hl n hn).null_notMem) number)
  unfold hasRoomBeside
  by_cases hpath : Utf8.size (pathOf (t.temporaryBeside l)).text ≤ longestPath
  · have hadmits : admits (pathOf (t.temporaryBeside l)) = .ok () := (admits_eq_ok_iff _).2 ⟨hnull, hpath⟩
    by_cases hname : Utf8.size ((t.temporaryBeside l).getLast?.getD []) ≤ longestName
    · simp [perform, hadmits, bind, Except.bind, hparent, hfree, hpath, hname]
    · simp [perform, hadmits, bind, Except.bind, hparent, hfree, hname, Nat.lt_of_not_le hname]
  · have hadmits : admits (pathOf (t.temporaryBeside l)) = .error .nameTooLong := by
      rw [admits, if_neg (by simpa using hnull), if_pos (Nat.lt_of_not_le hpath)]
    simp [perform, hadmits, bind, Except.bind, hpath]

/-- Replacing a file is refused when there is no room for the temporary file beside it, and for no other reason. -/
theorem WellFormed.replace_eq {t : Tree} (ht : t.WellFormed) {target : Location} {mode : Nat} {old : Bytes}
    (htarget : t.get? target = some (.file mode old)) (content : Bytes) :
    t.replace target content =
      if t.hasRoomBeside target then (t.put target (.file mode content), none) else (t, some .nameTooLong) := by
  rw [ht.replace_of_create htarget content, ht.perform_create_temporaryBeside (mem_locations_of_get? htarget (by simp))]
  cases t.hasRoomBeside target <;> rfl

end Tree
end SourceTidy
