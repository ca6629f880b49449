import SourceTidy.Config.Load
import SourceTidy.Proofs.Config.Merge
import SourceTidy.Proofs.Toml.Distinct

/-!
# Gathering sources

A source with a table is laid over what has been gathered, if there is room for it (`Gathered.add_of_load`). All tables of a source
have distinct keys (`Source.distinct_load`), so a key that is gathered is one of a source (`exists_source_of_gather`).
-/

namespace SourceTidy.Config

variable {m : Means} {stack : Toml.Stack} {t : Tree} {work : Location}

/-- The tables of a source have distinct keys. -/
theorem Source.distinct_load {s : Source} {f : Fields} (h : s.load stack t work = .ok f) :
    f.Distinct := by
  have table {p : Path} {f : Fields} (h : readTable stack t work p = .ok f) : f.Distinct := by
    obtain ⟨found, -, h⟩ := Except.bind_eq_ok_iff.1 h
    split at h
    · cases h
      exact Fields.distinct_nil
    · obtain ⟨bytes, -, h⟩ := Except.bind_eq_ok_iff.1 h
      obtain ⟨document, -, h⟩ := Except.bind_eq_ok_iff.1 h
      exact Toml.distinct_parse (Except.mapError_eq_ok_iff.1 h)
  unfold load at h
  split at h
  · exact table h
  · obtain ⟨document, hdocument, h⟩ := Except.bind_eq_ok_iff.1 h
    unfold sectionOf at h
    split at h
    · rename_i tools htools
      split at h
      · rename_i fields hfields
        cases h
        exact Fields.Distinct.get? ((table hdocument).get? htools) hfields
      · cases h
      · cases h
        exact Fields.distinct_nil
    · cases h
      exact Fields.distinct_nil

namespace Gathered

variable {g g' : Gathered} {s : Source}

/-- What becomes of a source that can be read. -/
theorem add_of_load {f : Fields} (h : s.load m.stack t work = .ok f) (g : Gathered) :
    (Fields.overlap g.table f ≤ m.mergeRoom + 1 ∧ ∃ g', g.add m t work s = .ok g' ∧ g'.table = Fields.merge g.table f) ∨
      m.mergeRoom + 1 < Fields.overlap g.table f ∧ g.add m t work s = .error .mergedTooDeep := by
  have hadd : g.add m t work s = if f.isEmpty then .ok g
      else if m.mergeRoom + 1 < Fields.overlap g.table f then .error .mergedTooDeep
      else .ok ⟨Fields.merge g.table f, g.sources ++ [s.description]⟩ := by
    rw [add, h]
    rfl
  rw [hadd]
  cases f with
  | nil => exact .inl ⟨by rw [Fields.overlap]; exact Nat.le_add_left 1 _, g, rfl, by rw [Fields.merge]⟩
  | cons p f =>
    rw [if_neg (by simp)]
    by_cases hdeep : m.mergeRoom + 1 < Fields.overlap g.table (p :: f)
    · exact .inr ⟨hdeep, if_pos hdeep⟩
    · exact .inl ⟨Nat.le_of_not_lt hdeep, _, if_neg hdeep, rfl⟩

/-- A source that has been added has been read, and laid over what was there. -/
theorem exists_load_of_add (h : g.add m t work s = .ok g') :
    ∃ f, s.load m.stack t work = .ok f ∧ g'.table = Fields.merge g.table f := by
  obtain ⟨f, hf, -⟩ := Except.bind_eq_ok_iff.1 h
  rcases add_of_load hf g with ⟨-, g'', hg'', htable⟩ | ⟨-, hdeep⟩
  · obtain rfl : g'' = g' := Except.ok.inj (hg''.symm.trans h)
    exact ⟨f, hf, htable⟩
  · exact absurd (hdeep.symm.trans h) nofun

/-- A key that is gathered was there before, or is one of a source. -/
theorem exists_source_of_foldlM {sources : List Source} (h : sources.foldlM (Gathered.add m t work) g = .ok g') {key : Text}
    (hkey : g'.table.get? key ≠ none) :
    g.table.get? key ≠ none ∨ ∃ s ∈ sources, ∃ f, s.load m.stack t work = .ok f ∧ f.get? key ≠ none := by
  induction sources generalizing g with
  | nil =>
    cases h
    exact .inl hkey
  | cons s sources ih =>
    obtain ⟨g₁, hadd, h⟩ := Except.bind_eq_ok_iff.1 h
    obtain ⟨f, hf, htable⟩ := exists_load_of_add hadd
    rcases ih h with hg₁ | ⟨s', hs', hf'⟩
    · by_cases hfkey : f.get? key = none
      · refine .inl fun hg => hg₁ ?_
        rw [htable]
        exact Fields.get?_merge_eq_none ((Fields.distinct_iff f).1 (Source.distinct_load hf)).1 hg hfkey
      · exact .inr ⟨s, List.mem_cons_self, f, hf, hfkey⟩
    · exact .inr ⟨s', List.mem_cons_of_mem s hs', hf'⟩

end Gathered

/-- A key that is gathered is one of a source. -/
theorem exists_source_of_gather {sources : List Source} {g : Gathered} (h : gather m t work sources = .ok g) {key : Text}
    (hkey : g.table.get? key ≠ none) : ∃ s ∈ sources, ∃ f, s.load m.stack t work = .ok f ∧ f.get? key ≠ none :=
  (Gathered.exists_source_of_foldlM h hkey).resolve_left fun hnil => hnil rfl

end SourceTidy.Config
