import Mathlib.Data.List.Induction
import Mathlib.Data.List.Nodup
import SourceTidy.Proofs.Tree.Outline

/-!
# Well-formed trees

The trees that a file system holds: no location has two entries, names are names, and what holds an entry is a directory.
Where there is nothing, there is nothing below either. Well-formedness is a property of the outline, so it is kept when
files are written to.
-/

namespace SourceTidy.Tree

/-- The locations of the entries of a tree. -/
def locations (t : Tree) : List Location := t.entries.map Prod.fst

/-- A tree as a file system holds it. -/
structure WellFormed (t : Tree) : Prop where
  nodup : t.locations.Nodup
  nil_notMem : [] ∉ t.locations
  isName : ∀ l ∈ t.locations, ∀ n ∈ l, Path.IsName n
  parent : ∀ l ∈ t.locations, t.get? l.dropLast = some .directory

instance (t : Tree) : Decidable t.WellFormed :=
  decidable_of_iff
    (t.locations.Nodup ∧ [] ∉ t.locations ∧ (∀ l ∈ t.locations, ∀ n ∈ l, Path.IsName n) ∧
      ∀ l ∈ t.locations, t.get? l.dropLast = some .directory)
    ⟨fun ⟨h₁, h₂, h₃, h₄⟩ => ⟨h₁, h₂, h₃, h₄⟩, fun ⟨h₁, h₂, h₃, h₄⟩ => ⟨h₁, h₂, h₃, h₄⟩⟩

@[simp] theorem locations_outline (t : Tree) : t.outline.locations = t.locations := by
  simp [locations, outline]

/-- Whether a tree is well-formed is seen from its outline. -/
@[simp] theorem wellFormed_outline (t : Tree) : t.outline.WellFormed ↔ t.WellFormed := by
  constructor
  · rintro ⟨hnodup, hnil, hname, hparent⟩
    rw [locations_outline] at hnodup hnil hname hparent
    exact ⟨hnodup, hnil, hname, fun l hl => (get?_outline_eq_directory t l.dropLast).1 (hparent l hl)⟩
  · rintro ⟨hnodup, hnil, hname, hparent⟩
    rw [← locations_outline] at hnodup hnil hname hparent
    exact ⟨hnodup, hnil, hname, fun l hl => (get?_outline_eq_directory t l.dropLast).2 (hparent l hl)⟩

/-! ## Entries and locations -/

theorem get?_of_ne_nil (t : Tree) {l : Location} (hl : l ≠ []) : t.get? l = t.entries.lookup l := if_neg hl

/-- There is something at a location below the root when it has an entry. -/
theorem isSome_get?_iff (t : Tree) {l : Location} (hl : l ≠ []) : (t.get? l).isSome ↔ l ∈ t.locations := by
  rw [get?_of_ne_nil t hl, List.lookup_isSome_iff, locations, List.mem_map]
  constructor
  · rintro ⟨x, hx, heq⟩
    exact ⟨x, hx, (beq_iff_eq.1 heq).symm⟩
  · rintro ⟨x, hx, rfl⟩
    exact ⟨x, hx, beq_self_eq_true _⟩

theorem mem_locations_of_get? {t : Tree} {l : Location} {e : Entry} (h : t.get? l = some e) (he : e ≠ .directory) :
    l ∈ t.locations := by
  have hl : l ≠ [] := by
    rintro rfl
    exact he (Option.some.inj h).symm
  rw [← isSome_get?_iff t hl, h]
  rfl

/-- The names in a directory are names. -/
theorem WellFormed.isName_of_mem_names {t : Tree} (ht : t.WellFormed) {l : Location} {n : Text} (hn : n ∈ t.names l) :
    Path.IsName n := by
  obtain ⟨⟨m, e⟩, hx, hm⟩ := List.mem_filterMap.1 hn
  simp only [Option.ite_none_right_eq_some] at hm
  exact ht.isName m (List.mem_map.2 ⟨_, hx, rfl⟩) n (List.mem_of_getLast? hm.2)

theorem names_eq_filterMap_locations (t : Tree) (l : Location) :
    t.names l = t.locations.filterMap fun m => if m.dropLast = l then m.getLast? else none := by
  rw [names, locations, List.filterMap_map]
  rfl

/-- A directory holds a name when there is an entry with one more name. -/
theorem mem_names_iff (t : Tree) (l : Location) (n : Text) : n ∈ t.names l ↔ l ++ [n] ∈ t.locations := by
  rw [names_eq_filterMap_locations, List.mem_filterMap]
  constructor
  · rintro ⟨m, hm, hn⟩
    rw [Option.ite_none_right_eq_some] at hn
    obtain ⟨rfl, hlast⟩ := hn
    rw [List.dropLast_append_getLast? n hlast]
    exact hm
  · intro h
    exact ⟨l ++ [n], h, by simp⟩

theorem mem_names_of_get? {t : Tree} {l : Location} {n : Text} {e : Entry} (h : t.get? (l ++ [n]) = some e) :
    n ∈ t.names l := by
  refine (t.mem_names_iff l n).2 ((isSome_get?_iff t (by simp)).1 ?_)
  rw [h]
  rfl

/-- No name is twice in a directory. -/
theorem WellFormed.nodup_names {t : Tree} (ht : t.WellFormed) (l : Location) : (t.names l).Nodup := by
  rw [names_eq_filterMap_locations]
  refine ht.nodup.filterMap fun m m' n hm hm' => ?_
  rw [Option.mem_def, Option.ite_none_right_eq_some] at hm hm'
  rw [← List.dropLast_append_getLast? n hm.2, ← List.dropLast_append_getLast? n hm'.2, hm.1, hm'.1]

/-- What an entry is below of is there. -/
theorem WellFormed.isSome_get?_of_append_mem {t : Tree} (ht : t.WellFormed) {l : Location} (names : List Text)
    (h : l ++ names ∈ t.locations) : (t.get? l).isSome := by
  induction names using List.reverseRecOn with
  | nil =>
    rw [List.append_nil] at h
    refine (isSome_get?_iff t ?_).2 h
    rintro rfl
    exact ht.nil_notMem h
  | append_singleton names n ih =>
    have hparent := ht.parent _ h
    rw [← List.append_assoc, List.dropLast_concat] at hparent
    by_cases hnil : l ++ names = []
    · rw [List.append_eq_nil_iff] at hnil
      rw [hnil.1]
      rfl
    · refine ih ((isSome_get?_iff t hnil).1 ?_)
      rw [hparent]
      rfl

/-- Where there is nothing, there is nothing below. -/
theorem WellFormed.not_isPrefix_of_get?_eq_none {t : Tree} (ht : t.WellFormed) {l m : Location} (hl : t.get? l = none)
    (hm : m ∈ t.locations) : ¬ l <+: m := by
  rintro ⟨names, rfl⟩
  have := ht.isSome_get?_of_append_mem names hm
  rw [hl] at this
  cases this

/-! ## Putting an entry -/

theorem lookup_putEntry (l m : Location) (e : Entry) (es : List (Location × Entry)) :
    (putEntry l e es).lookup m = if m = l then some e else es.lookup m := by
  induction es with
  | nil =>
    rw [putEntry, List.lookup_cons]
    by_cases hm : m = l
    · simp [hm]
    · simp [beq_false_of_ne hm, hm]
  | cons x rest ih =>
    obtain ⟨k, f⟩ := x
    rw [putEntry]
    by_cases hk : k = l
    · subst k
      rw [if_pos rfl]
      by_cases hm : m = l
      · simp [hm]
      · rw [List.lookup_cons, List.lookup_cons, beq_false_of_ne hm, if_neg hm]
    · rw [if_neg hk, List.lookup_cons, List.lookup_cons, ih]
      by_cases hm : m = l
      · rw [hm, beq_false_of_ne (Ne.symm hk), if_pos rfl]
      · rw [if_neg hm, if_neg hm]

/-- What is at a location when an entry has been put somewhere. -/
theorem get?_put (t : Tree) {l : Location} (hl : l ≠ []) (m : Location) (e : Entry) :
    (t.put l e).get? m = if m = l then some e else t.get? m := by
  unfold get? put
  by_cases hm : m = []
  · subst m
    simp [Ne.symm hl]
  · rw [if_neg hm, if_neg hm, lookup_putEntry]

theorem putEntry_of_notMem {l : Location} (e : Entry) {es : List (Location × Entry)} (h : l ∉ es.map Prod.fst) :
    putEntry l e es = es ++ [(l, e)] := by
  induction es with
  | nil => rfl
  | cons x rest ih =>
    obtain ⟨m, f⟩ := x
    rw [List.map_cons, List.mem_cons, not_or] at h
    rw [putEntry, if_neg (Ne.symm h.1), ih h.2]
    rfl

theorem putEntry_append {l : Location} (e : Entry) {es : List (Location × Entry)} (h : l ∈ es.map Prod.fst)
    (es' : List (Location × Entry)) : putEntry l e (es ++ es') = putEntry l e es ++ es' := by
  induction es with
  | nil => cases h
  | cons x rest ih =>
    obtain ⟨m, f⟩ := x
    rw [List.cons_append, putEntry, putEntry]
    split
    · rfl
    · rename_i hm
      rw [List.map_cons, List.mem_cons] at h
      rw [ih (h.resolve_left (Ne.symm hm))]
      rfl

theorem putEntry_putEntry (l : Location) (e f : Entry) (es : List (Location × Entry)) :
    putEntry l f (putEntry l e es) = putEntry l f es := by
  induction es with
  | nil => rw [putEntry, putEntry, putEntry, if_pos rfl]
  | cons x rest ih =>
    obtain ⟨m, g⟩ := x
    by_cases hm : m = l
    · rw [putEntry, if_pos hm, putEntry, if_pos rfl, putEntry, if_pos hm]
    · rw [putEntry, if_neg hm, putEntry, if_neg hm, ih, putEntry, if_neg hm]

theorem map_fst_putEntry {l : Location} (e : Entry) {es : List (Location × Entry)} (h : l ∈ es.map Prod.fst) :
    (putEntry l e es).map Prod.fst = es.map Prod.fst := by
  induction es with
  | nil => cases h
  | cons x rest ih =>
    obtain ⟨m, f⟩ := x
    rw [putEntry]
    split
    · subst m
      rfl
    · rename_i hm
      rw [List.map_cons, List.mem_cons] at h
      rw [List.map_cons, List.map_cons, ih (h.resolve_left (Ne.symm hm))]

/-- What is put last at a location stays. -/
@[simp] theorem put_put (t : Tree) (l : Location) (e f : Entry) : (t.put l e).put l f = t.put l f := by
  simp only [put, putEntry_putEntry]

/-- Erasing a location with nothing at it or below it changes nothing. -/
theorem erase_of_not_isPrefix {t : Tree} {l : Location} (h : ∀ m ∈ t.locations, ¬ l <+: m) : t.erase l = t := by
  have hfilter : t.entries.filter (fun x => !l.isPrefixOf x.1) = t.entries := by
    refine List.filter_eq_self.2 fun x hx => ?_
    have := h x.1 (List.mem_map.2 ⟨x, hx, rfl⟩)
    rw [← List.isPrefixOf_iff_prefix, Bool.not_eq_true] at this
    rw [this]
    rfl
  exact congrArg Tree.mk hfilter

/-- An entry that is put where there was nothing, and is erased again, leaves no trace. -/
theorem WellFormed.erase_put_put {t : Tree} (ht : t.WellFormed) {l m : Location} (hl : t.get? l = none)
    (hm : m ∈ t.locations) (e f : Entry) : ((t.put l e).put m f).erase l = t.put m f := by
  have hl0 : l ≠ [] := by
    rintro rfl
    cases hl
  have hnew : l ∉ t.locations := by
    rw [← isSome_get?_iff t hl0, hl]
    exact Bool.false_ne_true
  have hentries : ((t.put l e).put m f).entries = (t.put m f).entries ++ [(l, e)] := by
    rw [put, put, putEntry_of_notMem e hnew, putEntry_append f hm]
    rfl
  have hkeep : (t.put m f).erase l = t.put m f := by
    refine erase_of_not_isPrefix fun k hk => ?_
    rw [locations, put, map_fst_putEntry f hm] at hk
    exact ht.not_isPrefix_of_get?_eq_none hl hk
  have hself : l.isPrefixOf l = true := List.isPrefixOf_iff_prefix.2 List.prefix_rfl
  calc ((t.put l e).put m f).erase l = (t.put m f).erase l := by
        rw [erase, hentries, List.filter_append, List.filter_cons_of_neg (by simp [hself]), List.filter_nil,
          List.append_nil, erase]
    _ = t.put m f := hkeep

/-- Putting a file where there is one leaves the outline as it is. -/
theorem map_outline_putEntry {l : Location} {mode mode' : Nat} {content content' : Bytes}
    {es : List (Location × Entry)} (h : es.lookup l = some (.file mode content)) :
    (putEntry l (.file mode' content') es).map (fun x => (x.1, x.2.outline)) = es.map fun x => (x.1, x.2.outline) := by
  induction es with
  | nil => cases h
  | cons x rest ih =>
    obtain ⟨m, f⟩ := x
    rw [putEntry]
    split
    · subst m
      rw [List.lookup_cons_self] at h
      cases h
      rfl
    · rename_i hm
      rw [List.lookup_cons, beq_false_of_ne (Ne.symm hm)] at h
      rw [List.map_cons, List.map_cons, ih h]

theorem outline_put {t : Tree} {l : Location} {mode mode' : Nat} {content content' : Bytes}
    (h : t.get? l = some (.file mode content)) : (t.put l (.file mode' content')).outline = t.outline := by
  have hl : l ≠ [] := by
    rintro rfl
    cases h
  rw [get?_of_ne_nil t hl] at h
  simp only [outline, put, map_outline_putEntry h]

end SourceTidy.Tree
