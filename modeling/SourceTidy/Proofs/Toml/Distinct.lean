import Mathlib
import SourceTidy.Proofs.Attempt
import SourceTidy.Proofs.Value.Distinct
import SourceTidy.Toml.Document

/-!
# Tables of a TOML document have distinct keys

`distinct_parse`: in the table of a document, and in every table inside it, no key stands twice. A value is put into the table of
the document by `descend` only, which keeps this (`distinct_descend`); the readers of values build tables in the same way
(`readersKeepDistinct`), and what a statement makes of the table follows from both (`State.distinct_statement`).
-/

namespace SourceTidy.Toml

/-! ## Values that hold no others -/

theorem distinct_dateOrDateTime {t rest : Text} {v : Value} (h : dateOrDateTime t = some (.ok (v, rest))) : v.Distinct := by
  simp only [dateOrDateTime, Option.bind_eq_bind, Option.bind_eq_some_iff] at h
  obtain ⟨⟨day, afterDay⟩, -, h⟩ := h
  split at h
  · simp at h
  · split at h
    · cases h
      exact .plain rfl
    · cases h
      exact .plain rfl

theorem distinct_prefixedInteger {t rest : Text} {v : Value} (h : prefixedInteger t = some (v, rest)) : v.Distinct := by
  unfold prefixedInteger at h
  split at h
  · split at h
    · cases h
    · have read {base : Nat} {p : CodePoint → Bool} {u : Text}
          (h : (digits? p u).map (fun q => (Value.int (numberOf base q.1), q.2)) = some (v, rest)) : v.Distinct := by
        obtain ⟨_, -, h⟩ := Option.map_eq_some_iff.1 h
        cases h
        exact .plain rfl
      split at h
      · exact read h
      · split at h
        · exact read h
        · split at h
          · exact read h
          · cases h
  · cases h

theorem distinct_decimal {t rest : Text} {v : Value} (h : decimal t = some (.ok (v, rest))) : v.Distinct := by
  rcases hsign : sign t with ⟨negative, body⟩
  simp only [decimal, hsign] at h
  obtain ⟨⟨ds, afterWhole⟩, -, h⟩ := Option.map_eq_some_iff.1 h
  simp only at h
  split at h
  · split at h
    · cases h
    · cases h
      exact .plain rfl
  · cases h
    exact .plain rfl

theorem distinct_namedNumber {t rest : Text} {v : Value} (h : namedNumber t = some (v, rest)) : v.Distinct := by
  rcases hsign : sign t with ⟨negative, body⟩
  simp only [namedNumber, hsign] at h
  split at h
  · cases h
    exact .plain rfl
  · cases h
    exact .plain rfl
  · cases h

theorem distinct_simpleValue {t rest : Text} {v : Value} (h : simpleValue t = .ok (v, rest)) : v.Distinct := by
  have text {r : Except Failure (Text × Text)} (h : (fun p => (Value.text p.1, p.2)) <$> r = .ok (v, rest)) : v.Distinct := by
    obtain ⟨_, -, h⟩ := Except.map_eq_ok_iff.1 h
    cases h
    exact .plain rfl
  unfold simpleValue at h
  split at h
  · exact text h
  split at h
  · exact text h
  split at h
  · exact text h
  split at h
  · exact text h
  split at h
  · cases h
    exact .plain rfl
  split at h
  · cases h
    exact .plain rfl
  split at h
  · rename_i hr
    exact distinct_dateOrDateTime (hr.trans (congrArg some h))
  split at h
  · cases h
    exact .plain rfl
  split at h
  · rename_i hn
    cases h
    exact distinct_prefixedInteger hn
  split at h
  · rename_i hr
    exact distinct_decimal (hr.trans (congrArg some h))
  split at h
  · rename_i hn
    cases h
    exact distinct_namedNumber hn
  · cases h

/-! ## Changes to a table -/

/-- Whether a change keeps the keys of all tables distinct. -/
def KeepsDistinct (change : Fields → Except Problem Fields) : Prop :=
  ∀ t t', t.Distinct → change t = .ok t' → t'.Distinct

theorem keepsDistinct_ok : KeepsDistinct .ok := by
  rintro t t' ht ⟨⟩
  exact ht

theorem keepsDistinct_putNew {k : Text} {v : Value} (hv : v.Distinct) (taken : Problem) : KeepsDistinct (putNew k v taken) := by
  intro t t' ht h
  unfold putNew at h
  split at h
  · cases h
  · cases h
    exact ht.put k hv

theorem keepsDistinct_appendTable (k : Text) : KeepsDistinct (appendTable k) := by
  intro t t' ht h
  unfold appendTable at h
  split at h
  · cases h
    refine ht.put k (.array fun v hv => ?_)
    rw [List.mem_singleton.1 hv]
    exact Fields.distinct_nil
  · rename_i vs hvs
    cases h
    refine ht.put k (.array fun v hv => ?_)
    rcases List.mem_append.1 hv with hv | hv
    · exact (ht.get? hvs).of_mem_array v hv
    · rw [List.mem_singleton.1 hv]
      exact Fields.distinct_nil
  · cases h

theorem lastTable?_eq_some {vs : List Value} {sub : Fields} (h : lastTable? vs = some sub) :
    vs.getLast? = some (.table sub) := by
  unfold lastTable? at h
  split at h
  · rename_i hlast
    cases h
    exact hlast
  · cases h

/-- A change keeps keys distinct wherever it is made. -/
theorem distinct_descend {throughArrays : Bool} {change : Fields → Except Problem Fields} (hchange : KeepsDistinct change)
    (ks : List Text) : KeepsDistinct (descend throughArrays change ks) := by
  induction ks with
  | nil => exact hchange
  | cons k ks ih =>
    intro t t' ht h
    rw [descend] at h
    split at h
    · obtain ⟨sub', hsub, h⟩ := Except.bind_eq_ok_iff.1 h
      cases h
      exact ht.put k (ih _ _ Fields.distinct_nil hsub)
    · rename_i sub hget
      obtain ⟨sub', hsub, h⟩ := Except.bind_eq_ok_iff.1 h
      cases h
      exact ht.put k (ih _ _ (ht.get? hget) hsub)
    · rename_i vs hget
      split at h
      · rename_i sub hlast
        have hvs := (ht.get? hget).of_mem_array
        have hmem := List.mem_of_getLast? (lastTable?_eq_some hlast)
        obtain ⟨sub', hsub, h⟩ := Except.bind_eq_ok_iff.1 h
        cases h
        refine ht.put k (.array fun v hv => ?_)
        rcases List.mem_append.1 hv with hv | hv
        · exact hvs v (List.dropLast_subset vs hv)
        · rw [List.mem_singleton.1 hv]
          exact ih _ _ (hvs _ hmem) hsub
      · cases h
    · cases h

theorem distinct_atPlace {throughArrays : Bool} {change : Fields → Except Problem Fields} (hchange : KeepsDistinct change)
    {rest : Text} {ks : List Text} {t t' : Fields} (ht : t.Distinct)
    (h : atPlace rest (descend throughArrays change ks t) = .ok t') : t'.Distinct :=
  distinct_descend hchange ks t t' ht (Except.mapError_eq_ok_iff.1 h)

/-! ## Values -/

/-- What the readers of a value, of the items of an array and of the pairs of an inline table give on some fuel. -/
structure ReadersKeepDistinct (stack : Stack) (fuel : Nat) : Prop where
  value : ∀ room t v rest, value stack fuel room t = .ok (v, rest) → v.Distinct
  items : ∀ room before t v rest, (∀ w ∈ before, w.Distinct) → items stack fuel room before t = .ok (v, rest) → v.Distinct
  pairs : ∀ room marks fields t v rest, fields.Distinct → pairs stack fuel room marks fields t = .ok (v, rest) → v.Distinct

namespace ReadersKeepDistinct

variable {stack : Stack} {fuel room : Nat} {t rest : Text} {v : Value} (ih : ReadersKeepDistinct stack fuel)
include ih

theorem value_succ (h : Toml.value stack (fuel + 1) room t = .ok (v, rest)) : v.Distinct := by
  have nil : ∀ w ∈ ([] : List Value), w.Distinct := fun w hw => absurd hw List.not_mem_nil
  cases room with
  | zero => cases h
  | succ room =>
    cases t with
    | nil => cases h
    | cons c t =>
      rw [Toml.value.eq_def] at h
      simp only at h
      split at h
      · obtain ⟨left, -, h⟩ := Except.bind_eq_ok_iff.1 h
        split at h
        · exact ih.items _ _ _ _ _ nil h
        · split at h
          · cases h
            exact .array nil
          · exact ih.items _ _ _ _ _ nil h
      · split at h
        · split at h
          · exact ih.pairs _ _ _ _ _ _ Fields.distinct_nil h
          · split at h
            · cases h
              exact Fields.distinct_nil
            · exact ih.pairs _ _ _ _ _ _ Fields.distinct_nil h
        · exact distinct_simpleValue h

theorem items_succ {before : List Value} (hbefore : ∀ w ∈ before, w.Distinct)
    (h : Toml.items stack (fuel + 1) room before t = .ok (v, rest)) : v.Distinct := by
  rw [Toml.items] at h
  obtain ⟨⟨w, afterItem⟩, hw, h⟩ := Except.bind_eq_ok_iff.1 h
  have hall : ∀ u ∈ w :: before, u.Distinct := List.forall_mem_cons.2 ⟨ih.value _ _ _ _ hw, hbefore⟩
  have hreverse : Value.Distinct (.array (w :: before).reverse) := .array fun u hu => hall u (List.mem_reverse.1 hu)
  obtain ⟨left, -, h⟩ := Except.bind_eq_ok_iff.1 h
  split at h
  · cases h
  · split at h
    · cases h
      exact hreverse
    · split at h
      · obtain ⟨left', -, h⟩ := Except.bind_eq_ok_iff.1 h
        split at h
        · exact ih.items _ _ _ _ _ hall h
        · split at h
          · cases h
            exact hreverse
          · exact ih.items _ _ _ _ _ hall h
      · cases h

theorem pairs_succ {marks : Marks} {fields : Fields} (hfields : fields.Distinct)
    (h : Toml.pairs stack (fuel + 1) room marks fields t = .ok (v, rest)) : v.Distinct := by
  rw [Toml.pairs] at h
  obtain ⟨⟨k, afterKey⟩, -, h⟩ := Except.bind_eq_ok_iff.1 h
  obtain ⟨afterSign, -, h⟩ := Except.bind_eq_ok_iff.1 h
  obtain ⟨⟨w, afterValue⟩, hw, h⟩ := Except.bind_eq_ok_iff.1 h
  simp only at h
  split at h
  · cases h
  · obtain ⟨fields', hput, h⟩ := Except.bind_eq_ok_iff.1 h
    have hfields' : fields'.Distinct := distinct_atPlace (keepsDistinct_putNew (ih.value _ _ _ _ hw) _) hfields hput
    split at h
    · cases h
    · split at h
      · cases h
        exact hfields'
      · split at h
        · exact ih.pairs _ _ _ _ _ _ hfields' h
        · cases h

end ReadersKeepDistinct

/-- The three readers call each other on less fuel, so that what they give is shown of all of them at once. -/
theorem readersKeepDistinct (stack : Stack) (fuel : Nat) : ReadersKeepDistinct stack fuel := by
  induction fuel with
  | zero =>
    refine ⟨fun room t v rest h => ?_, fun room before t v rest _ h => ?_, fun room marks fields t v rest _ h => ?_⟩
    · cases h
    · cases h
    · cases h
  | succ fuel ih =>
    exact ⟨fun _ _ _ _ => ih.value_succ, fun _ _ _ _ _ => ih.items_succ, fun _ _ _ _ _ _ => ih.pairs_succ⟩

theorem distinct_value {stack : Stack} {fuel room : Nat} {t rest : Text} {v : Value}
    (h : value stack fuel room t = .ok (v, rest)) : v.Distinct :=
  (readersKeepDistinct stack fuel).value room t v rest h

/-! ## Statements -/

namespace State

variable {stack : Stack} {s s' : State} {t rest : Text}

theorem distinct_pair (hs : s.fields.Distinct) (h : s.pair stack t = .ok (s', rest)) : s'.fields.Distinct := by
  unfold pair at h
  obtain ⟨⟨k, afterKey⟩, -, h⟩ := Except.bind_eq_ok_iff.1 h
  obtain ⟨afterSign, -, h⟩ := Except.bind_eq_ok_iff.1 h
  obtain ⟨⟨v, afterValue⟩, hv, h⟩ := Except.bind_eq_ok_iff.1 h
  have hput := keepsDistinct_putNew (k := k.getLast?.getD []) (distinct_value hv) .overwrites
  simp only at h
  split at h
  · cases h
  · split at h
    · cases h
    · obtain ⟨fields', hfields, h⟩ := Except.bind_eq_ok_iff.1 h
      cases h
      exact distinct_atPlace hput hs hfields

theorem distinct_tableHeader (hs : s.fields.Distinct) (h : s.tableHeader t = .ok (s', rest)) : s'.fields.Distinct := by
  unfold tableHeader at h
  obtain ⟨⟨k, afterKey⟩, -, h⟩ := Except.bind_eq_ok_iff.1 h
  simp only at h
  split at h
  · cases h
  · obtain ⟨fields', hfields, h⟩ := Except.bind_eq_ok_iff.1 h
    have hfields' : fields'.Distinct := distinct_atPlace keepsDistinct_ok hs hfields
    split at h
    · split at h
      · cases h
        exact hfields'
      · cases h
    · cases h

theorem distinct_tableArrayHeader (hs : s.fields.Distinct) (h : s.tableArrayHeader t = .ok (s', rest)) :
    s'.fields.Distinct := by
  unfold tableArrayHeader at h
  obtain ⟨⟨k, afterKey⟩, -, h⟩ := Except.bind_eq_ok_iff.1 h
  simp only at h
  split at h
  · cases h
  · obtain ⟨fields', hfields, h⟩ := Except.bind_eq_ok_iff.1 h
    have hfields' : fields'.Distinct := distinct_atPlace (keepsDistinct_appendTable _) hs hfields
    split at h
    · cases h
      exact hfields'
    · cases h

theorem distinct_anyHeader (hs : s.fields.Distinct) (h : s.anyHeader t = .ok (s', rest)) : s'.fields.Distinct := by
  have hsettle : s.settle.fields.Distinct := hs
  cases t with
  | nil => exact distinct_tableHeader hsettle h
  | cons c t =>
    rw [anyHeader] at h
    split at h
    · exact distinct_tableArrayHeader hsettle h
    · exact distinct_tableHeader hsettle h

/-- A statement keeps the keys of all tables distinct. -/
theorem distinct_statement (hs : s.fields.Distinct) (h : s.statement stack t = .ok (s', rest)) : s'.fields.Distinct := by
  cases t with
  | nil =>
    cases h
    exact hs
  | cons c t =>
    rw [statement] at h
    split at h
    · exact distinct_pair hs h
    · split at h
      · exact distinct_anyHeader hs h
      · split at h
        · cases h
          exact hs
        · cases h

/-- The statements of a document keep the keys of all tables distinct. -/
theorem distinct_lines {fuel : Nat} (hs : s.fields.Distinct) (h : lines stack fuel s t = .ok s') : s'.fields.Distinct := by
  induction fuel generalizing s t with
  | zero =>
    cases h
    exact hs
  | succ fuel ih =>
    rw [lines] at h
    split at h
    · cases h
      exact hs
    · split at h
      · exact ih hs h
      · obtain ⟨⟨next, afterStatement⟩, hnext, h⟩ := Except.bind_eq_ok_iff.1 h
        have hnext' := distinct_statement hs hnext
        obtain ⟨left, -, h⟩ := Except.bind_eq_ok_iff.1 h
        split at h
        · cases h
          exact hnext'
        · split at h
          · exact ih hnext' h
          · cases h

end State

/-- In the table of a document, and in every table inside it, no key stands twice. -/
theorem distinct_parse {stack : Stack} {document : Text} {t : Fields} (h : parse stack document = .ok t) : t.Distinct := by
  obtain ⟨s, hs, rfl⟩ := Except.map_eq_ok_iff.1 h
  exact State.distinct_lines Fields.distinct_nil hs

end SourceTidy.Toml
