import Mathlib.Data.List.Nodup
import Std.Data.String.ToNat
import SourceTidy.Proofs.Tree.RealPath

/-!
# What writing leaves behind

A replacement in a well-formed tree either puts the new content at the place of the old one and changes nothing else, or it
fails and leaves the tree as it was (`replace_of_file`). This needs a free place for the temporary file: its numbers give
more locations than the tree has entries, so one of them is free, and there is nothing below it either. Writing to a path
that can be read is such a replacement, since the path leads to the place that it is resolved to.
-/

namespace SourceTidy

/-! ## Locations for the temporary file -/

theorem CodePoint.ofChar_injective : Function.Injective CodePoint.ofChar := by
  intro c d h
  exact Char.ext (UInt32.toNat_inj.1 (congrArg CodePoint.toNat h))

/-- Different numbers have different decimal texts. -/
theorem Text.ofNat_injective : Function.Injective Text.ofNat := by
  intro m n h
  exact Nat.repr_injective (String.toList_injective (List.map_injective_iff.2 CodePoint.ofChar_injective h))

theorem Text.underscore_notMem_ofNat (n : Nat) : ('_' : CodePoint) ∉ Text.ofNat n := by
  intro h
  obtain ⟨c, hc, he⟩ := List.mem_map.1 h
  rw [CodePoint.ofChar_injective he, Nat.toList_repr] at hc
  exact Nat.underscore_not_in_toDigits hc

namespace Tree

/-- Different numbers give different temporary locations. -/
theorem temporaryNumber_injective (l : Location) : Function.Injective (temporaryNumber l) := by
  intro m n h
  have htags : List.replicate (tagLength - (Text.ofNat m).length) ('_' : CodePoint) ++ Text.ofNat m =
      List.replicate (tagLength - (Text.ofNat n).length) ('_' : CodePoint) ++ Text.ofNat n := by
    have hnames := List.append_cancel_right (List.singleton_inj.1 (List.append_cancel_left h))
    simp only [List.append_assoc] at hnames
    exact List.append_cancel_left (List.append_cancel_left (List.append_cancel_left hnames))
  have hfilter (k : Nat) (n : Nat) :
      (List.replicate k ('_' : CodePoint) ++ Text.ofNat n).filter (· != ('_' : CodePoint)) = Text.ofNat n := by
    rw [List.filter_append, List.filter_eq_nil_iff.2, List.nil_append, List.filter_eq_self]
    · intro c hc
      exact bne_iff_ne.2 fun he => Text.underscore_notMem_ofNat n (he ▸ hc)
    · intro c hc
      simp [List.eq_of_mem_replicate hc]
  have := congrArg (List.filter (· != ('_' : CodePoint))) htags
  rw [hfilter, hfilter] at this
  exact Text.ofNat_injective this

theorem temporaryNumber_ne_nil (l : Location) (n : Nat) : temporaryNumber l n ≠ [] := by
  simp [temporaryNumber]

@[simp] theorem dropLast_temporaryNumber (l : Location) (n : Nat) : (temporaryNumber l n).dropLast = l.dropLast := by
  simp [temporaryNumber]

/-- There is nothing at the temporary location that is chosen. -/
theorem get?_temporaryBeside (t : Tree) (l : Location) : t.get? (t.temporaryBeside l) = none := by
  simp only [temporaryBeside]
  cases hfind : (List.range (t.entries.length + 1)).find? fun n => (t.get? (temporaryNumber l n)).isNone with
  | some n => simpa using List.find?_some hfind
  | none =>
    have hsub : (List.range (t.entries.length + 1)).map (temporaryNumber l) ⊆ t.locations := by
      intro m hm
      obtain ⟨n, hn, rfl⟩ := List.mem_map.1 hm
      refine (isSome_get?_iff t (temporaryNumber_ne_nil l n)).1 ?_
      simpa [Option.isSome_iff_ne_none] using List.find?_eq_none.1 hfind n hn
    have hlength := (List.subperm_of_subset (List.nodup_range.map (temporaryNumber_injective l)) hsub).length_le
    rw [List.length_map, List.length_range, locations, List.length_map] at hlength
    exact absurd hlength (Nat.not_succ_le_self _)

/-! ## Replacing and writing -/

/-- Making a file puts an empty one at its location. -/
theorem eq_put_of_perform_create {t t' : Tree} {l : Location} (h : t.perform (.create l) = .ok t') :
    t' = t.put l (.file privateMode []) := by
  simp only [perform] at h
  cases hadmits : admits (pathOf l) with
  | error e => simp [hadmits, bind, Except.bind] at h
  | ok u =>
    simp only [hadmits, bind, Except.bind] at h
    split at h
    · split at h
      · cases h
      · exact (Except.ok.inj h).symm
    all_goals cases h

/-- A replacement stands and falls with the making of the temporary file: when it can be made, the new content is put at the
place of the old one, with the mode of the old one, and otherwise the tree is left as it was. -/
theorem WellFormed.replace_of_create {t : Tree} (ht : t.WellFormed) {target : Location} {mode : Nat} {old : Bytes}
    (htarget : t.get? target = some (.file mode old)) (content : Bytes) :
    t.replace target content =
      match t.perform (.create (t.temporaryBeside target)) with
      | .ok _ => (t.put target (.file mode content), none)
      | .error e => (t, some e) := by
  have hmem := mem_locations_of_get? htarget (by simp)
  have hfree := t.get?_temporaryBeside target
  unfold replace replaceSteps
  generalize t.temporaryBeside target = temporary at hfree
  have htemp : temporary ≠ [] := by
    rintro rfl
    cases hfree
  have hne : target ≠ temporary := by
    rintro rfl
    rw [htarget] at hfree
    cases hfree
  cases hcreate : t.perform (.create temporary) with
  | error e =>
    simp only [performAll, hcreate]
    rw [erase_of_not_isPrefix fun m hm => ht.not_isPrefix_of_get?_eq_none hfree hm]
  | ok t₁ =>
    obtain rfl := eq_put_of_perform_create hcreate
    have hfill : (t.put temporary (.file privateMode [])).perform (.fill temporary content) =
        .ok (t.put temporary (.file privateMode content)) := by
      simp [perform, get?_put t htemp]
    have hcopy : (t.put temporary (.file privateMode content)).perform (.copyMode target temporary) =
        .ok (t.put temporary (.file mode content)) := by
      simp [perform, get?_put t htemp, hne, htarget]
    have hrename : (t.put temporary (.file mode content)).perform (.rename temporary target) =
        .ok (t.put target (.file mode content)) := by
      simp [perform, get?_put t htemp, hne, htarget, ht.erase_put_put hfree hmem]
    simp only [performAll, hcreate, hfill, hcopy, hrename]

/-- A replacement either puts the new content at the place of the old one, with the mode of the old one, or it fails and
leaves the tree as it was. -/
theorem WellFormed.replace_of_file {t : Tree} (ht : t.WellFormed) {target : Location} {mode : Nat} {old : Bytes}
    (htarget : t.get? target = some (.file mode old)) (content : Bytes) :
    t.replace target content = (t.put target (.file mode content), none) ∨
      ∃ e, t.replace target content = (t, some e) := by
  rw [ht.replace_of_create htarget content]
  cases t.perform (.create (t.temporaryBeside target)) with
  | ok t' => exact .inl rfl
  | error e => exact .inr ⟨e, rfl⟩

/-- Writing to a path that can be read fails when the text has no bytes; otherwise it puts its bytes at the place where the
path leads, or it is refused. The tree is as it was whenever it fails. -/
theorem WellFormed.write_of_read {t : Tree} (ht : t.WellFormed) {work : Location} {p : Path} (hp : p.IsPlain) {old : Bytes}
    (hread : t.read work p = .ok old) (content : Text) :
    match Utf8.encode content with
    | .error e => t.write work p content = (t, some (.encode e))
    | .ok bytes =>
      (∃ l mode, t.locatePath work p = .ok l ∧ t.get? l = some (.file mode old) ∧
        t.write work p content = (t.put l (.file mode bytes), none)) ∨
      ∃ e, t.write work p content = (t, some (.system e)) := by
  obtain ⟨l, mode, hlocate, hget⟩ := (t.read_eq_ok_iff work p old).1 hread
  unfold write
  rw [real_of_locatePath hp hlocate]
  cases Utf8.encode content with
  | error e => rfl
  | ok bytes =>
    rcases ht.replace_of_file hget bytes with h | ⟨e, h⟩
    · left
      exact ⟨l, mode, hlocate, hget, by simp only [h]⟩
    · right
      exact ⟨e, by simp only [h]⟩

/-- What has been written is what is read at the same path. -/
theorem WellFormed.read_write {t : Tree} (ht : t.WellFormed) {work : Location} {p : Path} (hp : p.IsPlain)
    {old bytes : Bytes} (hread : t.read work p = .ok old) {content : Text} (hbytes : Utf8.encode content = .ok bytes)
    (hok : (t.write work p content).2 = none) : (t.write work p content).1.read work p = .ok bytes := by
  have h := ht.write_of_read hp hread content
  rw [hbytes] at h
  rcases h with ⟨l, mode, hlocate, hget, h⟩ | ⟨e, h⟩
  · rw [h, read_eq_ok_iff]
    refine ⟨l, mode, ?_, ?_⟩
    · rw [← locatePath_outline, outline_put hget, locatePath_outline]
      exact hlocate
    · have hl : l ≠ [] := by
        rintro rfl
        cases hget
      rw [get?_put t hl, if_pos rfl]
  · rw [h] at hok
    cases hok

end Tree
end SourceTidy
