import SourceTidy.Config.Merge
import SourceTidy.Proofs.Value.Distinct

/-!
# What a merge has at a key

A key of a merge has what the upper table lays over the lower one there, and what the lower table has when the upper one does not
have the key. The keys of the upper table have to be distinct for this: of two entries of one key a merge takes in both, and a
look at the table takes in the first. What is laid over something replaces it, unless both are tables.
-/

namespace SourceTidy

/-! ## Values laid over values -/

namespace Value

/-- Whether a value is a table. -/
def isTable : Value → Bool
  | table _ => true
  | _ => false

/-- A value that is laid over nothing stays as it is. -/
theorem over_none (v : Value) : Value.over none v = v := by
  cases v <;> rw [Value.over] <;> simp

theorem over_of_not_isTable (below : Option Value) {v : Value} (hv : v.isTable = false) : Value.over below v = v := by
  cases v with
  | table f => cases hv
  | _ => rw [Value.over]; simp

theorem over_table (g f : Fields) : Value.over (some (table g)) (table f) = table (Fields.merge g f) := by
  rw [Value.over]

theorem overlap_of_not_isTable (below : Option Value) {v : Value} (hv : v.isTable = false) : Value.overlap below v = 0 := by
  cases v with
  | table f => cases hv
  | _ => rw [Value.overlap]; simp

end Value

/-! ## Tables laid over tables -/

namespace Fields

theorem get?_merge {upper : Fields} (h : upper.keys.Nodup) (lower : Fields) (key : Text) :
    (merge lower upper).get? key =
      match upper.get? key with
      | none => lower.get? key
      | some v => some (Value.over (lower.get? key) v) := by
  induction upper generalizing lower with
  | nil => rw [merge]; rfl
  | cons p rest ih =>
    obtain ⟨k, v⟩ := p
    obtain ⟨hk, hrest⟩ := List.nodup_cons.1 h
    rw [merge, ih hrest, get?_put, get?_cons]
    by_cases hkey : key = k
    · subst hkey
      rw [(get?_eq_none_iff rest key).2 hk, if_pos rfl, if_pos rfl]
    · rw [if_neg hkey, if_neg hkey]

/-- A key that no table has is none of the merge's. -/
theorem get?_merge_eq_none {lower upper : Fields} (h : upper.keys.Nodup) {key : Text} (hlower : lower.get? key = none)
    (hupper : upper.get? key = none) : (merge lower upper).get? key = none := by
  rw [get?_merge h, hupper]
  exact hlower

/-- A merge takes one more table inside each other than its values do. -/
theorem overlap_le {lower upper : Fields} {n : Nat} (h : ∀ p ∈ upper, Value.overlap (lower.get? p.1) p.2 ≤ n) :
    overlap lower upper ≤ n + 1 := by
  induction upper with
  | nil =>
    rw [overlap]
    exact Nat.le_add_left 1 n
  | cons p upper ih =>
    obtain ⟨hp, hrest⟩ := List.forall_mem_cons.1 h
    rw [overlap]
    exact Nat.max_le.2 ⟨by omega, ih hrest⟩

theorem overlap_table_le {upper : Fields} {n : Nat} (h : ∀ lower, overlap lower upper ≤ n) (below : Option Value) :
    Value.overlap below (.table upper) ≤ n := by
  rw [Value.overlap.eq_def]
  simp only
  split
  · exact h _
  · exact Nat.zero_le n

end Fields
end SourceTidy
