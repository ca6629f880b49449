import SourceTidy.Value.Basic

/-!
# Tables with distinct keys

A table is a list of entries, which could hold a key twice. None that a document or a merge gives does: `Value.Distinct` says
so for all tables inside a value, and putting a value at a key keeps it. What a table has at a key after putting and erasing
is told by `get?_put` and `get?_erase`, whether its keys are distinct or not.
-/

namespace SourceTidy

namespace Fields

/-- The keys of a table, in order. -/
def keys (t : Fields) : List Text := t.map (·.1)

theorem get?_cons (p : Text × Value) (t : Fields) (key : Text) :
    Fields.get? (p :: t) key = if key = p.1 then some p.2 else t.get? key := by
  rw [get?, List.lookup_cons, get?]
  by_cases h : key = p.1
  · rw [if_pos h, beq_iff_eq.2 h]
  · rw [if_neg h, beq_eq_false_iff_ne.2 h]

theorem mem_of_get? {t : Fields} {key : Text} {v : Value} (h : t.get? key = some v) : (key, v) ∈ t := by
  induction t with
  | nil => cases h
  | cons p t ih =>
    rw [get?_cons] at h
    split at h
    · rename_i hkey
      cases h
      rw [hkey]
      exact List.mem_cons_self
    · exact List.mem_cons_of_mem p (ih h)

/-- A table with distinct keys has every one of its entries at its key. -/
theorem get?_of_mem {t : Fields} (h : t.keys.Nodup) {p : Text × Value} (hp : p ∈ t) : t.get? p.1 = some p.2 := by
  induction t with
  | nil => cases hp
  | cons q t ih =>
    obtain ⟨hq, ht⟩ := List.nodup_cons.1 h
    rw [get?_cons]
    rcases List.mem_cons.1 hp with rfl | hp
    · rw [if_pos rfl]
    · have hne : p.1 ≠ q.1 := fun hkey => hq (List.mem_map.2 ⟨p, hp, hkey⟩)
      rw [if_neg hne, ih ht hp]

theorem get?_eq_none_iff (t : Fields) (key : Text) : t.get? key = none ↔ key ∉ t.keys := by
  induction t with
  | nil => exact iff_of_true rfl List.not_mem_nil
  | cons p t ih =>
    rw [get?_cons, keys, List.map_cons, List.mem_cons, not_or, ← keys, ← ih]
    split
    · rename_i h
      simp [h]
    · rename_i h
      simp [h]

theorem get?_put (t : Fields) (key : Text) (v : Value) (other : Text) :
    (t.put key v).get? other = if other = key then some v else t.get? other := by
  induction t with
  | nil => exact get?_cons (key, v) [] other
  | cons p t ih =>
    obtain ⟨k, w⟩ := p
    rw [put]
    by_cases hk : k = key
    · subst hk
      rw [if_pos rfl, get?_cons, get?_cons]
      split <;> rfl
    · rw [if_neg hk, get?_cons, ih, get?_cons]
      by_cases ho : other = k
      · rw [if_pos ho, if_pos ho, if_neg fun h => hk (ho.symm.trans h)]
      · rw [if_neg ho, if_neg ho]

theorem get?_erase (t : Fields) (key other : Text) :
    (t.erase key).get? other = if other = key then none else t.get? other := by
  induction t with
  | nil => exact (ite_self _).symm
  | cons p t ih =>
    obtain ⟨k, w⟩ := p
    rw [erase, List.filter_cons, ← erase]
    by_cases hk : k = key
    · subst hk
      rw [if_neg (by simp), ih, get?_cons]
      split
      · rfl
      · rfl
    · rw [if_pos (by simp [hk]), get?_cons, ih, get?_cons]
      by_cases ho : other = k
      · rw [if_pos ho, if_pos ho, if_neg fun h => hk (ho.symm.trans h)]
      · rw [if_neg ho, if_neg ho]

theorem mem_put {t : Fields} {key : Text} {v : Value} {p : Text × Value} (h : p ∈ t.put key v) : p = (key, v) ∨ p ∈ t := by
  induction t with
  | nil => exact .inl (List.mem_singleton.1 h)
  | cons q t ih =>
    rw [put] at h
    split at h
    · rename_i hk
      rcases List.mem_cons.1 h with rfl | h
      · exact .inl (congrArg (·, v) hk)
      · exact .inr (List.mem_cons_of_mem q h)
    · rcases List.mem_cons.1 h with rfl | h
      · exact .inr List.mem_cons_self
      · exact (ih h).imp_right (List.mem_cons_of_mem q)

theorem mem_keys_put {t : Fields} {key other : Text} {v : Value} (h : other ∈ (t.put key v).keys) :
    other = key ∨ other ∈ t.keys := by
  obtain ⟨p, hp, rfl⟩ := List.mem_map.1 h
  rcases mem_put hp with rfl | hp
  · exact .inl rfl
  · exact .inr (List.mem_map_of_mem hp)

theorem nodup_keys_put {t : Fields} (h : t.keys.Nodup) (key : Text) (v : Value) : (t.put key v).keys.Nodup := by
  induction t with
  | nil => exact List.pairwise_singleton _ key
  | cons p t ih =>
    obtain ⟨k, w⟩ := p
    obtain ⟨hk, ht⟩ := List.nodup_cons.1 h
    rw [put]
    split
    · exact h
    · rename_i hne
      refine List.nodup_cons.2 ⟨fun hmem => ?_, ih ht⟩
      rcases mem_keys_put hmem with heq | hmem
      · exact hne heq
      · exact hk hmem

end Fields

/-- Whether a value holds no others. -/
def Value.isPlain : Value → Bool
  | array _ | table _ => false
  | _ => true

/-- A value in which every table has each of its keys once. -/
inductive Value.Distinct : Value → Prop where
  | plain {v : Value} (hv : v.isPlain = true) : Distinct v
  | array {vs : List Value} (hvs : ∀ v ∈ vs, Distinct v) : Distinct (.array vs)
  | table {t : List (Text × Value)} (hkeys : (Fields.keys t).Nodup) (ht : ∀ p ∈ t, Distinct p.2) : Distinct (.table t)

/-- A table all of whose tables, itself among them, have each of their keys once. -/
def Fields.Distinct (t : Fields) : Prop := Value.Distinct (.table t)

theorem Value.Distinct.of_mem_array {vs : List Value} (h : Value.Distinct (.array vs)) : ∀ v ∈ vs, v.Distinct := by
  cases h with
  | plain hv => cases hv
  | array hvs => exact hvs

namespace Fields

theorem distinct_nil : Distinct [] := .table List.nodup_nil nofun

theorem distinct_iff (t : Fields) : t.Distinct ↔ t.keys.Nodup ∧ ∀ p ∈ t, p.2.Distinct := by
  refine ⟨fun h => ?_, fun h => .table h.1 h.2⟩
  cases h with
  | plain hv => cases hv
  | table hkeys ht => exact ⟨hkeys, ht⟩

theorem Distinct.get? {t : Fields} (h : t.Distinct) {key : Text} {v : Value} (hv : t.get? key = some v) : v.Distinct :=
  ((distinct_iff t).1 h).2 _ (mem_of_get? hv)

theorem Distinct.put {t : Fields} (h : t.Distinct) (key : Text) {v : Value} (hv : v.Distinct) :
    (t.put key v).Distinct := by
  obtain ⟨hkeys, ht⟩ := (distinct_iff t).1 h
  refine .table (nodup_keys_put hkeys key v) fun p hp => ?_
  rcases mem_put hp with rfl | hp
  · exact hv
  · exact ht p hp

end Fields
end SourceTidy
