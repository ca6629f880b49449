import Mathlib.Data.List.Nodup
import SourceTidy.Glob.MaskSet
import SourceTidy.Proofs.Text.Strip

/-!
# What a set of masks holds

Adding masks to a set one by one leaves it with the first occurrence of each mask that counts, stripped and in order
(`foldl_insert_firsts`). So whether the set accepts a name depends on which masks count, and on nothing else
(`accepts_ofList_iff`), and a list of such masks makes a set of itself (`firsts_firsts`).
-/

namespace SourceTidy.MaskSet

/-- The masks that count: stripped, and without the blank ones. -/
def kept (masks : List Text) : List Text := (masks.map Text.strip).filter (!·.isEmpty)

/-- The first occurrences of the masks that count, in order. -/
def firsts (masks : List Text) : List Text := (kept masks).eraseDups

theorem mem_kept_iff {masks : List Text} {m : Text} : m ∈ kept masks ↔ m ≠ [] ∧ ∃ mask ∈ masks, mask.strip = m := by
  rw [kept, List.mem_filter, List.mem_map, Bool.not_eq_true', List.isEmpty_eq_false_iff, and_comm]

theorem kept_append (masks more : List Text) : kept (masks ++ more) = kept masks ++ kept more := by
  rw [kept, List.map_append, List.filter_append]
  rfl

/-- Masks that count are counted as they are. -/
theorem kept_eq_self {masks : List Text} (h : ∀ m ∈ masks, m.strip = m ∧ m ≠ []) : kept masks = masks := by
  rw [kept, List.map_congr_left fun m hm => (h m hm).1, List.map_id', List.filter_eq_self]
  intro m hm
  simpa using (h m hm).2

theorem kept_singleton (mask : Text) : kept [mask] = if mask.strip.isEmpty then [] else [mask.strip] := by
  cases h : mask.strip.isEmpty <;> simp [kept, h]

@[simp] theorem mem_firsts_iff {masks : List Text} {m : Text} : m ∈ firsts masks ↔ m ∈ kept masks := List.mem_eraseDups

theorem eraseDups_eq_self {masks : List Text} (h : masks.Nodup) : masks.eraseDups = masks := by
  induction masks with
  | nil => rfl
  | cons m masks ih =>
    obtain ⟨hm, hmasks⟩ := List.nodup_cons.1 h
    have hothers : masks.filter (fun n => !n == m) = masks := by
      rw [List.filter_eq_self]
      intro n hn
      rw [Bool.not_eq_true', beq_eq_false_iff_ne]
      exact fun heq => hm (heq ▸ hn)
    rw [List.eraseDups_cons, hothers, ih hmasks]

/-- One more mask is added to the first occurrences unless it is blank or there already. -/
theorem insert_firsts (masks : List Text) (mask : Text) : insert (firsts masks) mask = firsts (masks ++ [mask]) := by
  rw [insert, firsts, firsts, kept_append, kept_singleton]
  cases hblank : mask.strip.isEmpty with
  | true => simp
  | false =>
    rw [List.eraseDups_append, List.removeAll]
    have hsingle : [mask.strip].eraseDups = [mask.strip] := eraseDups_eq_self (List.nodup_singleton _)
    by_cases hmem : mask.strip ∈ kept masks <;> simp [hmem, hsingle]

theorem foldl_insert_firsts (masks more : List Text) : more.foldl insert (firsts masks) = firsts (masks ++ more) := by
  induction more generalizing masks with
  | nil => simp
  | cons mask more ih => simp [insert_firsts, ih]

theorem ofList_eq (masks : List Text) : ofList masks = ⟨firsts masks, false⟩ :=
  congrArg (MaskSet.mk · false) (foldl_insert_firsts [] masks)

theorem nodup_insert {masks : List Text} (h : masks.Nodup) (mask : Text) : (insert masks mask).Nodup := by
  rw [insert]
  split
  · exact h
  · rename_i hnew
    rw [Bool.or_eq_true, List.contains_iff_mem, not_or] at hnew
    exact List.Nodup.append h (List.nodup_singleton _) (List.disjoint_singleton.2 hnew.2)

theorem nodup_firsts (masks : List Text) : (firsts masks).Nodup := by
  induction masks using List.reverseRecOn with
  | nil => exact List.nodup_nil
  | append_singleton masks mask ih => exact insert_firsts masks mask ▸ nodup_insert ih mask

theorem stripped_of_mem_firsts {masks : List Text} {m : Text} (h : m ∈ firsts masks) : m.strip = m ∧ m ≠ [] := by
  obtain ⟨hne, mask, -, rfl⟩ := mem_kept_iff.1 (mem_firsts_iff.1 h)
  exact ⟨Text.strip_strip mask, hne⟩

/-- The first occurrences are the first occurrences of themselves. -/
theorem firsts_firsts (masks : List Text) : firsts (firsts masks) = firsts masks := by
  rw [firsts, kept_eq_self fun m => stripped_of_mem_firsts, eraseDups_eq_self (nodup_firsts masks)]

theorem accepts_ofList_iff (masks : List Text) (name : Text) :
    (ofList masks).accepts name = true ↔ ∃ m ∈ kept masks, Mask.accepts m name = true := by
  rw [accepts, ofList_eq, List.any_eq_true]
  simp only [mem_firsts_iff]

end SourceTidy.MaskSet
