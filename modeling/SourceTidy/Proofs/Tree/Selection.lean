import SourceTidy.Proofs.Glob.MaskSet
import SourceTidy.Proofs.Tree.Discovery

/-!
# What masks select

One walk may be narrower than another: it ignores more names, or it accepts fewer, and is like it for the rest (`Narrows`).
Then it asks about fewer paths, also since there are directories that it does not go through (`Narrows.mem_candidates`), and
it finds a part of what the other finds, in the same order. But the other walk may come to a path that the system does not
take and that the narrower one never asks about. So it may find less, and it does just when the narrower walk finds anything
that comes after this path (`Narrows.sublist_iff`).
-/

namespace SourceTidy.Walk

/-! ## What is found -/

instance (root : Path) : Std.Asymm (Precedes root) := ⟨fun _ _ => Precedes.asymm⟩

/-- Of two lists in the order of a walk, one with all paths of the other holds them in the same order. -/
theorem sublist_of_subset {root : Path} {ps qs : List Path} (hps : ps.Pairwise (Precedes root))
    (hqs : qs.Pairwise (Precedes root)) (h : ps ⊆ qs) : ps.Sublist qs :=
  List.sublist_of_subperm_of_pairwise (List.subperm_of_subset (hps.imp Precedes.ne) h) hps hqs

/-- The files that a walk comes to below a directory, and what ends it. -/
def below (w : Walk) (t : Tree) (root : Path) : Found := Found.all (w.listFile t) (w.candidates t (maxDepth t) root)

/-- A scan of a directory. -/
theorem scan_eq_below (w : Walk) {t : Tree} (ht : t.WellFormed) {root : Path} (hroot : root.IsPlain)
    (hdirectory : t.isDirectory w.work root = true) : w.scan t root = some (w.below t root) := by
  rw [w.scan_eq_list? ht hroot, list?, Tree.isFile_of_isDirectory hdirectory, below, ← listWithin_eq_all]
  exact if_pos hdirectory

/-- What is found are the files among the first candidates, up to the one that ends the walk if one does. -/
theorem exists_files_below_eq (w : Walk) (t : Tree) (root : Path) :
    ∃ before after, w.candidates t (maxDepth t) root = before ++ after ∧
      (w.below t root).files = before.filter (w.hasFile t) ∧
      after.head? = (w.below t root).failure.map SystemFailure.path := by
  have hspec := w.all_listFile_spec t (w.candidates t (maxDepth t) root)
  rw [← below] at hspec
  cases hfailure : (w.below t root).failure with
  | none =>
    rw [hfailure] at hspec
    exact ⟨_, [], (List.append_nil _).symm, hspec.2, rfl⟩
  | some f =>
    rw [hfailure] at hspec
    obtain ⟨before, after, hcandidates, -, -, hfiles⟩ := hspec
    exact ⟨before, f.path :: after, hcandidates, hfiles, rfl⟩

section Below

variable {t : Tree} (ht : t.WellFormed) (w : Walk) (root : Path)
include ht

theorem pairwise_below : (w.below t root).files.Pairwise (Precedes root) := by
  obtain ⟨before, after, hcandidates, hfiles, -⟩ := w.exists_files_below_eq t root
  have horder := w.pairwise_candidates ht (maxDepth t) root
  rw [hcandidates] at horder
  rw [hfiles]
  exact (List.pairwise_append.1 horder).1.filter _

/-- The files below a directory are those of the candidates that come before the one that ends the walk, if one does. -/
theorem mem_below_iff (p : Path) :
    p ∈ (w.below t root).files ↔
      p ∈ w.candidates t (maxDepth t) root ∧ w.hasFile t p = true ∧
        ∀ f, (w.below t root).failure = some f → Precedes root p f.path := by
  obtain ⟨before, after, hcandidates, hfiles, hend⟩ := w.exists_files_below_eq t root
  have horder := w.pairwise_candidates ht (maxDepth t) root
  rw [hcandidates] at horder
  obtain ⟨-, hafter, hbefore⟩ := List.pairwise_append.1 horder
  rw [hcandidates, hfiles, List.mem_filter]
  constructor
  · rintro ⟨hp, hfile⟩
    refine ⟨List.mem_append_left _ hp, hfile, fun f hf => ?_⟩
    rw [hf] at hend
    exact hbefore p hp f.path (List.mem_of_head? hend)
  · rintro ⟨hp, hfile, hprecedes⟩
    refine ⟨(List.mem_append.1 hp).resolve_right fun hp => ?_, hfile⟩
    obtain ⟨q, rest, rfl⟩ := List.exists_cons_of_ne_nil (List.ne_nil_of_mem hp)
    obtain ⟨f, hf, rfl⟩ := Option.map_eq_some_iff.1 hend.symm
    rcases List.mem_cons.1 hp with rfl | hp
    · exact (hprecedes f hf).ne rfl
    · exact (hprecedes f hf).asymm (List.rel_of_pairwise_cons hafter hp)

end Below

/-- A walk below a directory comes to its end when the system takes every candidate. -/
theorem failure_below_eq_none_iff (w : Walk) (t : Tree) (root : Path) :
    (w.below t root).failure = none ↔
      ∀ p ∈ w.candidates t (maxDepth t) root, ∃ b, t.isFile w.work p = .ok b := by
  have hspec := w.all_listFile_spec t (w.candidates t (maxDepth t) root)
  rw [← below] at hspec
  cases hfailure : (w.below t root).failure with
  | none =>
    rw [hfailure] at hspec
    exact iff_of_true rfl hspec.1
  | some f =>
    rw [hfailure] at hspec
    obtain ⟨before, after, hcandidates, hrefused, -, -⟩ := hspec
    refine iff_of_false (by simp) fun h => ?_
    obtain ⟨b, hb⟩ := h f.path (hcandidates ▸ List.mem_append_right before List.mem_cons_self)
    rw [hrefused] at hb
    cases hb

/-! ## Narrower walks -/

/-- `Narrows w v`: the walk `w` ignores what `v` ignores, admits no name that `v` does not, and is like `v` for the rest. -/
structure Narrows (w v : Walk) : Prop where
  followsLinks : w.followsLinks = v.followsLinks
  work : w.work = v.work
  ignores : ∀ n, v.ignore.accepts n = true → w.ignore.accepts n = true
  admits : ∀ n, w.admits n = true → v.admits n = true

namespace Narrows

variable {w v : Walk} (h : Narrows w v) {t : Tree} {root : Path}
include h

theorem isFile_eq (p : Path) : t.isFile w.work p = t.isFile v.work p := by
  rw [h.work]

theorem hasFile_eq (p : Path) : w.hasFile t p = v.hasFile t p := by
  rw [hasFile, hasFile, h.isFile_eq]

theorem namesIn_eq (directory : Path) : w.namesIn t directory = v.namesIn t directory := by
  rw [namesIn, namesIn, h.work]

theorem holdsDirectory_eq (directory : Path) (n : Text) :
    w.holdsDirectory t directory n = v.holdsDirectory t directory n := by
  rw [holdsDirectory, holdsDirectory, h.work]

theorem enters_eq (p : Path) : w.enters t p = v.enters t p := by
  rw [enters, enters, h.followsLinks, h.work]

theorem fileNames_subset (directory : Path) : w.fileNames t directory ⊆ v.fileNames t directory := by
  intro n hn
  rw [fileNames, Text.mem_sort, List.mem_filter, Bool.and_eq_true] at hn ⊢
  rw [h.namesIn_eq, h.holdsDirectory_eq] at hn
  exact ⟨hn.1, hn.2.1, h.admits n hn.2.2⟩

theorem directoryNames_subset (directory : Path) : w.directoryNames t directory ⊆ v.directoryNames t directory := by
  intro n hn
  rw [directoryNames, Text.mem_sort, List.mem_filter, Bool.and_eq_true, Bool.not_eq_true', ← Bool.not_eq_true] at hn ⊢
  rw [h.namesIn_eq, h.holdsDirectory_eq] at hn
  exact ⟨hn.1, hn.2.1, mt (h.ignores n) hn.2.2⟩

/-- Each path that the narrower walk asks about, the other asks about as well. -/
theorem mem_candidates {depth : Nat} {directory p : Path} (hp : p ∈ w.candidates t depth directory) :
    p ∈ v.candidates t depth directory := by
  induction depth generalizing directory with
  | zero => cases hp
  | succ depth ih =>
    rw [candidates, List.mem_append, List.mem_map, List.mem_flatMap] at hp ⊢
    rcases hp with ⟨n, hn, rfl⟩ | ⟨n, hn, hp⟩
    · exact .inl ⟨n, h.fileNames_subset directory hn, rfl⟩
    · rw [List.mem_filter, h.enters_eq] at hn
      exact .inr ⟨n, List.mem_filter.2 ⟨h.directoryNames_subset directory hn.1, hn.2⟩, ih hp⟩

/-- The narrower walk comes to its end if the other does. -/
theorem failure_eq_none (hfailure : (v.below t root).failure = none) : (w.below t root).failure = none := by
  rw [failure_below_eq_none_iff] at hfailure ⊢
  intro p hp
  rw [h.isFile_eq]
  exact hfailure p (h.mem_candidates hp)

/-- The narrower walk finds a part of what the other finds, unless it finds anything after the path that ends the other. -/
theorem sublist_iff (ht : t.WellFormed) :
    (w.below t root).files.Sublist (v.below t root).files ↔
      ∀ f, (v.below t root).failure = some f → ∀ p ∈ (w.below t root).files, Precedes root p f.path := by
  constructor
  · intro hsublist f hf p hp
    exact ((v.mem_below_iff ht root p).1 (hsublist.subset hp)).2.2 f hf
  · intro hbefore
    refine sublist_of_subset (w.pairwise_below ht root) (v.pairwise_below ht root) fun p hp => ?_
    obtain ⟨hcandidate, hfile, -⟩ := (w.mem_below_iff ht root p).1 hp
    exact (v.mem_below_iff ht root p).2
      ⟨h.mem_candidates hcandidate, h.hasFile_eq p ▸ hfile, fun f hf => hbefore f hf p hp⟩

/-- Walks that are no narrower than each other find the same. -/
theorem below_eq (h' : Narrows v w) (ht : t.WellFormed) : w.below t root = v.below t root := by
  have hcandidates : w.candidates t (maxDepth t) root = v.candidates t (maxDepth t) root :=
    List.Subset.antisymm_of_pairwise (w.pairwise_candidates ht _ root) (v.pairwise_candidates ht _ root)
      (fun _ hp => h.mem_candidates hp) (fun _ hp => h'.mem_candidates hp)
  have hlist : w.listFile t = v.listFile t := by
    funext p
    rw [listFile, listFile, h.isFile_eq]
  rw [below, below, hcandidates, hlist]

end Narrows

/-! ## Lists of masks -/

/-- The walk with other masks. -/
def selecting (w : Walk) (accept ignore : List Text) : Walk := { w with accept := .ofList accept, ignore := .ofList ignore }

open MaskSet in
/-- More masks to accept, or fewer to ignore, are for a walk that is no narrower. -/
theorem narrows_selecting (w : Walk) {accept accept' ignore ignore' : List Text}
    (haccept : ∀ m ∈ kept accept, m ∈ kept accept') (hignore : ∀ m ∈ kept ignore', m ∈ kept ignore) :
    Narrows (w.selecting accept ignore) (w.selecting accept' ignore') := by
  have hmore {masks masks' : List Text} (h : ∀ m ∈ kept masks, m ∈ kept masks') {n : Text}
      (hn : (ofList masks).accepts n = true) : (ofList masks').accepts n = true := by
    obtain ⟨m, hm, hn⟩ := (accepts_ofList_iff masks n).1 hn
    exact (accepts_ofList_iff masks' n).2 ⟨m, h m hm, hn⟩
  refine ⟨rfl, rfl, fun n => hmore hignore, fun n hn => ?_⟩
  rw [Walk.admits, Bool.and_eq_true, Bool.not_eq_true', ← Bool.not_eq_true] at hn ⊢
  exact ⟨hmore haccept hn.1, mt (hmore hignore) hn.2⟩

open MaskSet in
/-- Scans of a directory with more masks.

With more masks to ignore, a scan finds a part of what it finds without them, in the same order, unless the scan without them
comes to a path that the system does not take and the one with them finds anything behind it. With more masks to accept it is
the other way round. If the scan that asks about more comes to its end, so does the other. And only the masks that count
matter, without their order. -/
theorem scan_is_monotone {t : Tree} (ht : t.WellFormed) {root : Path} (hroot : root.IsPlain) (w : Walk)
    (hdirectory : t.isDirectory w.work root = true) (accept ignore more : List Text) :
    ∃ found fewer wider,
      (w.selecting accept ignore).scan t root = some found ∧
      (w.selecting accept (ignore ++ more)).scan t root = some fewer ∧
      (w.selecting (accept ++ more) ignore).scan t root = some wider ∧
      (fewer.files.Sublist found.files ↔ ∀ f, found.failure = some f → ∀ p ∈ fewer.files, Precedes root p f.path) ∧
      (found.files.Sublist wider.files ↔ ∀ f, wider.failure = some f → ∀ p ∈ found.files, Precedes root p f.path) ∧
      (found.failure = none → fewer.failure = none) ∧
      (wider.failure = none → found.failure = none) ∧
      ∀ accept' ignore', (∀ m, m ∈ kept accept' ↔ m ∈ kept accept) → (∀ m, m ∈ kept ignore' ↔ m ∈ kept ignore) →
        (w.selecting accept' ignore').scan t root = some found := by
  have hscan (accept ignore : List Text) :
      (w.selecting accept ignore).scan t root = some ((w.selecting accept ignore).below t root) :=
    scan_eq_below _ ht hroot hdirectory
  have hmore {masks : List Text} : ∀ m ∈ kept masks, m ∈ kept (masks ++ more) := by
    intro m hm
    rw [kept_append]
    exact List.mem_append_left _ hm
  have hfewer : Narrows (w.selecting accept (ignore ++ more)) (w.selecting accept ignore) :=
    narrows_selecting w (fun _ hm => hm) hmore
  have hwider : Narrows (w.selecting accept ignore) (w.selecting (accept ++ more) ignore) :=
    narrows_selecting w hmore fun _ hm => hm
  refine ⟨_, _, _, hscan _ _, hscan _ _, hscan _ _, hfewer.sublist_iff ht, hwider.sublist_iff ht, hfewer.failure_eq_none,
    hwider.failure_eq_none, ?_⟩
  intro accept' ignore' haccept hignore
  have hsame : Narrows (w.selecting accept' ignore') (w.selecting accept ignore) :=
    narrows_selecting w (fun m => (haccept m).1) (fun m => (hignore m).2)
  have hsame' : Narrows (w.selecting accept ignore) (w.selecting accept' ignore') :=
    narrows_selecting w (fun m => (haccept m).2) (fun m => (hignore m).1)
  rw [hscan, hsame.below_eq hsame' ht]

open DiscoveryWitness in
set_option maxRecDepth 4000 in
/-- A walk that looks for one file more asks about a link whose target has too long a name, and then it misses a file that it
has found without; and a walk finds this file when it ignores the link. -/
theorem more_masks_miss_file :
    linked.WellFormed ∧ root.IsPlain ∧ linked.isDirectory walk.work root = true ∧
      (walk.selecting ["a.txt", "m.txt"] []).scan linked root = some ⟨[root.child "a.txt", root.child "m.txt"], none⟩ ∧
      (walk.selecting ["a.txt", "m.txt", "l.txt"] []).scan linked root =
        some ⟨[root.child "a.txt"], some ⟨root.child "l.txt", .nameTooLong⟩⟩ ∧
      (walk.selecting ["a.txt", "m.txt", "l.txt"] ["l.txt"]).scan linked root =
        some ⟨[root.child "a.txt", root.child "m.txt"], none⟩ ∧
      ¬ [root.child "a.txt", root.child "m.txt"].Sublist [root.child "a.txt"] :=
  ⟨by decide +kernel, Path.isPlain_ofText _, by cbv, by cbv, by cbv, by cbv, by decide⟩

open DiscoveryWitness in
/-- A walk that ignores one more directory, and the same walk with its masks written in another way. -/
theorem more_masks_select_less :
    tree.WellFormed ∧ root.IsPlain ∧ tree.isDirectory walk.work root = true ∧
      ∃ found fewer, (walk.selecting ["*"] ["tmp"]).scan tree root = some found ∧
        (walk.selecting ["*"] ["tmp", " d "]).scan tree root = some fewer ∧
        fewer.files = [root.child "b.txt", root.child "z.txt"] ∧ fewer.files.Sublist found.files ∧
        (walk.selecting ["", "*", "*"] ["tmp "]).scan tree root = some found := by
  have hwf : tree.WellFormed := by decide +kernel
  have hroot : root.IsPlain := Path.isPlain_ofText _
  have hdirectory : tree.isDirectory walk.work root = true := by cbv
  obtain ⟨found, fewer, -, hfound, hfewer, -, hsublist, -, -, -, hsame⟩ :=
    scan_is_monotone hwf hroot walk hdirectory ["*"] ["tmp"] [" d "]
  have hall : some found = some ⟨[root.child "b.txt", root.child "z.txt", (root.child "d").child "c.txt"], none⟩ :=
    hfound.symm.trans scan_tree
  have hfiles : (walk.selecting ["*"] ["tmp", " d "]).scan tree root =
      some ⟨[root.child "b.txt", root.child "z.txt"], none⟩ := by cbv
  have haccept : MaskSet.kept ["", "*", "*"] = ["*", "*"] := by decide
  have haccept' : MaskSet.kept ["*"] = ["*"] := by decide
  have hignore : MaskSet.kept ["tmp "] = MaskSet.kept ["tmp"] := by decide
  refine ⟨hwf, hroot, hdirectory, found, fewer, hfound, hfewer, ?_, hsublist.2 ?_, hsame _ _ ?_ fun m => by rw [hignore]⟩
  · exact congrArg Found.files (Option.some.inj (hfewer.symm.trans hfiles))
  · cases hall
    intro f hf
    cases hf
  · intro m
    rw [haccept, haccept']
    simp

end SourceTidy.Walk
