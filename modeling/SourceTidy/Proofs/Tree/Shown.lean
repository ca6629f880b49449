import SourceTidy.Proofs.Text.Split
import SourceTidy.Proofs.Tree.Discovery

/-!
# The paths that files are shown by

A file of a walk is shown by the names that lead to it from the root, with slashes between them. The names of a tree have no
slash, so they can be read off again (`Text.split_join`), and no two files of a walk are shown by the same path
(`nodup_relativeTo`).
-/

namespace SourceTidy

/-! ## Paths below a root -/

namespace Path

/-- Names with slashes between them are something. -/
theorem join_ne_nil {ns : List Text} (hne : ns ≠ []) (hns : ∀ n ∈ ns, IsName n) : Text.join [slash] ns ≠ [] := by
  intro h
  have hsplit := Text.split_join hne fun n hn => (hns n hn).slash_notMem
  rw [h] at hsplit
  exact (hns [] (hsplit ▸ List.mem_cons_self)).ne_nil rfl

/-- A path below a root is shown by the names that lead to it. -/
theorem relativeTo_descend (root : Path) {ns : List Text} (hne : ns ≠ []) (hns : ∀ n ∈ ns, IsName n) :
    (root.descend ns).relativeTo root = Text.join [slash] ns := by
  have hroot : root.descend ns ≠ root := by
    intro h
    exact hne (root.descend_injective (h.trans root.descend_nil.symm))
  have hbelow : below? root (root.descend ns) = some ⟨.relative, ns⟩ := by
    simp [below?, descend]
  rw [relativeTo, if_neg hroot, hbelow]
  simp only [text, List.isEmpty_iff]
  exact if_neg (join_ne_nil hne hns)

theorem name_child (p : Path) (n : Text) : (p.child n).name = n := by
  simp [name, child]

/-- Different paths below a root are shown differently. -/
theorem eq_of_relativeTo_eq {root : Path} {ns ms : List Text} (hns : ns ≠ []) (hms : ms ≠ [])
    (hnames : ∀ n ∈ ns, IsName n) (hnames' : ∀ n ∈ ms, IsName n)
    (h : (root.descend ns).relativeTo root = (root.descend ms).relativeTo root) : root.descend ns = root.descend ms := by
  rw [root.relativeTo_descend hns hnames, root.relativeTo_descend hms hnames'] at h
  have hsplit := congrArg (Text.split slash) h
  rw [Text.split_join hns fun n hn => (hnames n hn).slash_notMem,
    Text.split_join hms fun n hn => (hnames' n hn).slash_notMem] at hsplit
  rw [hsplit]

end Path

/-! ## Files of a walk -/

namespace Walk

/-- The names that lead to a candidate are names. -/
theorem exists_names_of_mem_candidates (w : Walk) {t : Tree} (ht : t.WellFormed) {depth : Nat} {directory p : Path}
    (h : p ∈ w.candidates t depth directory) : ∃ ns ≠ [], (∀ n ∈ ns, Path.IsName n) ∧ p = directory.descend ns := by
  have hname {directory : Path} {n : Text} (hn : n ∈ w.namesIn t directory) : Path.IsName n := by
    unfold namesIn at hn
    split at hn
    · exact ht.isName_of_mem_names hn
    · cases hn
  induction depth generalizing directory with
  | zero => cases h
  | succ depth ih =>
    rw [candidates, List.mem_append, List.mem_map, List.mem_flatMap] at h
    rcases h with ⟨n, hn, rfl⟩ | ⟨n, hn, hp⟩
    · have hn := hname (List.mem_filter.1 (List.mem_mergeSort.1 hn)).1
      exact ⟨[n], by simp, by simpa using hn, rfl⟩
    · have hn := hname (List.mem_filter.1 (List.mem_mergeSort.1 (List.mem_filter.1 hn).1)).1
      obtain ⟨ns, -, hns, rfl⟩ := ih hp
      exact ⟨n :: ns, by simp, List.forall_mem_cons.2 ⟨hn, hns⟩, (directory.descend_cons n ns).symm⟩

/-- What is found is among the candidates, in their order. -/
theorem listWithin_sublist (w : Walk) (t : Tree) (depth : Nat) (directory : Path) :
    (w.listWithin t depth directory).files.Sublist (w.candidates t depth directory) := by
  rw [listWithin_eq_all]
  have hspec := w.all_listFile_spec t (w.candidates t depth directory)
  generalize Found.all (w.listFile t) (w.candidates t depth directory) = found at hspec
  cases hfailure : found.failure with
  | none =>
    rw [hfailure] at hspec
    rw [hspec.2]
    exact List.filter_sublist
  | some f =>
    rw [hfailure] at hspec
    obtain ⟨before, after, hcandidates, -, -, hfiles⟩ := hspec
    rw [hfiles, hcandidates]
    exact List.filter_sublist.trans (List.sublist_append_left before _)

/-- No two files of a walk are shown by the same path. -/
theorem nodup_relativeTo (w : Walk) {t : Tree} (ht : t.WellFormed) {root : Path} {found : Found}
    (h : w.list? t root = some found) : (found.files.map (·.relativeTo root)).Nodup := by
  unfold list? at h
  split at h
  · cases h
    exact List.nodup_nil
  · cases h
    exact List.nodup_singleton _
  · split at h
    · cases h
      have hsub := w.listWithin_sublist t (maxDepth t) root
      have hnodup : (w.candidates t (maxDepth t) root).Nodup := (w.pairwise_candidates ht (maxDepth t) root).imp fun hpq => hpq.ne
      refine (hnodup.sublist hsub).map_on fun p hp q hq hpq => ?_
      obtain ⟨ns, hns, hnames, rfl⟩ := w.exists_names_of_mem_candidates ht (hsub.subset hp)
      obtain ⟨ms, hms, hnames', rfl⟩ := w.exists_names_of_mem_candidates ht (hsub.subset hq)
      exact Path.eq_of_relativeTo_eq hns hms hnames hnames' hpq
    · cases h

end Walk
end SourceTidy
