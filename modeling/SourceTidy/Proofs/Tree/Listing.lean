import SourceTidy.Proofs.Tree.Visits
import SourceTidy.Proofs.Tree.WellFormed

/-!
# What a walk comes to

A walk looks at the tree again and again while something is done at its files. As long as what is done keeps the outline of
the tree, it comes to the files that a scan of the tree lists at the start, in this order, and it does nothing else
(`run_eq_follow`). So a run over a tree is the run over a list that is fixed before it begins.
-/

namespace SourceTidy.Walk

variable {σ ε : Type}

namespace Found

/-- One list of files after another; nothing comes after a failure. -/
def andThen (a b : Found) : Found := if a.failure = none then ⟨a.files ++ b.files, b.failure⟩ else a

/-- The files that are found at each of some names or paths, in order. -/
def all {α : Type} (f : α → Found) (xs : List α) : Found := xs.foldr (fun x rest => (f x).andThen rest) ⟨[], none⟩

/-- Does something at each file in turn, and fails in the end as the list of files does. -/
def follow (visit : Path → σ → Except ε σ) (found : Found) (s : σ) : Except (WalkError σ ε) σ := do
  let s ← found.files.foldlM (fun s p => handle visit p s) s
  match found.failure with
  | none => .ok s
  | some failure => .error (.refused s failure)

theorem follow_singleton (visit : Path → σ → Except ε σ) (p : Path) (s : σ) :
    follow visit ⟨[p], none⟩ s = handle visit p s := by
  rw [follow, List.foldlM_cons]
  cases handle visit p s with
  | error e => rfl
  | ok s => rfl

/-- To follow one list after another is to follow each in turn. -/
theorem follow_andThen (visit : Path → σ → Except ε σ) (a b : Found) (s : σ) :
    follow visit (a.andThen b) s = follow visit a s >>= follow visit b := by
  obtain ⟨files, failure⟩ := a
  cases failure with
  | none =>
    rw [andThen, if_pos rfl, follow, follow, List.foldlM_append]
    cases files.foldlM (fun s p => handle visit p s) s with
    | error e => rfl
    | ok s => rfl
  | some failure =>
    rw [andThen, if_neg (by simp), follow]
    cases files.foldlM (fun s p => handle visit p s) s with
    | error e => rfl
    | ok s => rfl

end Found

/-! ## Lists of files -/

/-- The file at a path, if there is one. -/
def listFile (w : Walk) (t : Tree) (p : Path) : Found :=
  match t.isFile w.work p with
  | .ok true => ⟨[p], none⟩
  | .ok false => ⟨[], none⟩
  | .error failure => ⟨[], some failure⟩

/-- The files in a directory, those below its directories left out. -/
def listFiles (w : Walk) (t : Tree) (directory : Path) : Found :=
  Found.all (fun n => w.listFile t (directory.child n)) (w.fileNames t directory)

/-- The files below a directory, at most a number of levels deep. -/
def listWithin (w : Walk) (t : Tree) : Nat → Path → Found
  | 0, _ => ⟨[], none⟩
  | depth + 1, directory =>
    (w.listFiles t directory).andThen
      (Found.all
        (fun n => if w.enters t (directory.child n) then listWithin w t depth (directory.child n) else ⟨[], none⟩)
        (w.directoryNames t directory))

/-- The files below a root, if there is anything at it. -/
def list? (w : Walk) (t : Tree) (root : Path) : Option Found :=
  match t.isFile w.work root with
  | .error failure => some ⟨[], some failure⟩
  | .ok true => some ⟨[root], none⟩
  | .ok false => if t.isDirectory w.work root then some (w.listWithin t (maxDepth t) root) else none

section Outline

variable {t u : Tree} (h : t.outline = u.outline)
include h

theorem isFile_of_outline (w : Walk) (p : Path) : t.isFile w.work p = u.isFile w.work p := by
  rw [← Tree.isFile_outline, h, Tree.isFile_outline]

theorem isDirectory_of_outline (w : Walk) (p : Path) : t.isDirectory w.work p = u.isDirectory w.work p := by
  rw [← Tree.isDirectory_outline, h, Tree.isDirectory_outline]

theorem enters_of_outline (w : Walk) (p : Path) : w.enters t p = w.enters u p := by
  rw [enters, enters, ← Tree.isLink_outline t, h, Tree.isLink_outline]

theorem namesIn_of_outline (w : Walk) (p : Path) : w.namesIn t p = w.namesIn u p := by
  unfold namesIn
  rw [← Tree.locatePath_outline t, h, Tree.locatePath_outline]
  cases u.locatePath w.work p with
  | error e => rfl
  | ok l =>
    simp only
    rw [← Tree.names_outline t, h, Tree.names_outline]

theorem holdsDirectory_of_outline (w : Walk) (p : Path) (n : Text) : w.holdsDirectory t p n = w.holdsDirectory u p n := by
  have hget (l : Location) : (t.get? l == some .directory) = (u.get? l == some .directory) := by
    rw [Bool.eq_iff_iff, beq_iff_eq, beq_iff_eq, ← Tree.get?_outline_eq_directory t, h, Tree.get?_outline_eq_directory]
  unfold holdsDirectory
  rw [← Tree.locatePath_outline t, h, Tree.locatePath_outline]
  simp only [hget, isDirectory_of_outline h w]

theorem fileNames_of_outline (w : Walk) (p : Path) : w.fileNames t p = w.fileNames u p := by
  simp only [fileNames, namesIn_of_outline h, holdsDirectory_of_outline h w]

theorem directoryNames_of_outline (w : Walk) (p : Path) : w.directoryNames t p = w.directoryNames u p := by
  simp only [directoryNames, namesIn_of_outline h, holdsDirectory_of_outline h w]

theorem maxDepth_of_outline : maxDepth t = maxDepth u := by
  rw [maxDepth, maxDepth, ← Tree.length_outline t, h, Tree.length_outline]

end Outline

/-! ## Following a list -/

/-- What may be done at the files of a tree for a walk to come to those that it lists: it keeps an invariant under which
the tree has one outline. -/
structure Keeps (view : σ → Tree) (visit : Path → σ → Except ε σ) (I : σ → Prop) (outline : Tree) : Prop where
  outline_eq : ∀ s, I s → (view s).outline = outline.outline
  preserved : ∀ p s s', p.IsPlain → I s → visit p s = .ok s' → I s'

section Follow

variable {view : σ → Tree} {visit : Path → σ → Except ε σ} {I : σ → Prop} {t : Tree}

/-- Whether there is a file at a path is seen from the outline, so what happens there is what happens at the file that is
listed. -/
theorem visitFile_eq_follow (w : Walk) (hk : Keeps view visit I t) (p : Path) {s : σ} (hs : I s) :
    w.visitFile view visit p s = (w.listFile t p).follow visit s := by
  unfold visitFile fileAt listFile
  rw [isFile_of_outline (hk.outline_eq s hs) w p]
  cases t.isFile w.work p with
  | error failure => rfl
  | ok isFile =>
    cases isFile with
    | false => rfl
    | true => exact (Found.follow_singleton visit p s).symm

/-- Following a list of files keeps the invariant. -/
theorem Keeps.follow (hk : Keeps view visit I t) {found : Found} (hplain : ∀ p ∈ found.files, p.IsPlain) {s s' : σ}
    (hs : I s) (h : found.follow visit s = .ok s') : I s' := by
  obtain ⟨files, failure⟩ := found
  unfold Found.follow at h
  induction files generalizing s with
  | nil =>
    cases failure with
    | none =>
      cases h
      exact hs
    | some failure => cases h
  | cons p rest ih =>
    rw [List.foldlM_cons] at h
    cases hv : visit p s with
    | error e =>
      rw [handle_of_error hv] at h
      cases h
    | ok s₁ =>
      have hrest : ∀ q ∈ rest, q.IsPlain := fun q hq => hplain q (List.mem_cons_of_mem p hq)
      have hs₁ : I s₁ := hk.preserved p s s₁ (hplain p List.mem_cons_self) hs hv
      rw [handle_of_ok hv] at h
      exact ih hs₁ hrest h

/-- What is done at each of some names is what is done along the files that are found at them. -/
theorem Keeps.foldlM_eq_follow (hk : Keeps view visit I t) {step : σ → Text → Except (WalkError σ ε) σ} {f : Text → Found}
    (names : List Text) (hstep : ∀ n ∈ names, ∀ s, I s → step s n = (f n).follow visit s)
    (hplain : ∀ n ∈ names, ∀ p ∈ (f n).files, p.IsPlain) {s : σ} (hs : I s) :
    names.foldlM step s = (Found.all f names).follow visit s := by
  induction names generalizing s with
  | nil => rfl
  | cons n rest ih =>
    have hall : Found.all f (n :: rest) = (f n).andThen (Found.all f rest) := rfl
    rw [List.foldlM_cons, hstep n List.mem_cons_self s hs, hall, Found.follow_andThen]
    cases hn : (f n).follow visit s with
    | error e => rfl
    | ok s₁ =>
      have hs₁ : I s₁ := hk.follow (hplain n List.mem_cons_self) hs hn
      exact ih (fun m hm => hstep m (List.mem_cons_of_mem n hm)) (fun m hm => hplain m (List.mem_cons_of_mem n hm)) hs₁

end Follow

/-! ## Plain paths -/

theorem mem_all {f : Text → Found} {names : List Text} {p : Path} (h : p ∈ (Found.all f names).files) :
    ∃ n ∈ names, p ∈ (f n).files := by
  induction names with
  | nil => cases h
  | cons n rest ih =>
    have hall : Found.all f (n :: rest) = (f n).andThen (Found.all f rest) := rfl
    rw [hall, Found.andThen] at h
    split at h
    · rcases List.mem_append.1 h with h | h
      · exact ⟨n, List.mem_cons_self, h⟩
      · obtain ⟨m, hm, hp⟩ := ih h
        exact ⟨m, List.mem_cons_of_mem n hm, hp⟩
    · exact ⟨n, List.mem_cons_self, h⟩

theorem eq_of_mem_listFile {w : Walk} {t : Tree} {p q : Path} (h : q ∈ (w.listFile t p).files) : q = p := by
  unfold listFile at h
  split at h
  · exact List.mem_singleton.1 h
  · cases h
  · cases h

/-- The names that a walk reads in a well-formed tree make plain paths. -/
theorem isPlain_child (w : Walk) {t : Tree} (ht : t.WellFormed) {directory : Path} (hd : directory.IsPlain) {n : Text}
    (hn : n ∈ w.namesIn t directory) : (directory.child n).IsPlain := by
  unfold namesIn at hn
  split at hn
  · exact hd.child (ht.isName_of_mem_names hn).ne_here
  · cases hn

theorem isPlain_child_of_mem_fileNames (w : Walk) {t : Tree} (ht : t.WellFormed) {directory : Path}
    (hd : directory.IsPlain) {n : Text} (hn : n ∈ w.fileNames t directory) : (directory.child n).IsPlain :=
  w.isPlain_child ht hd (List.mem_filter.1 (List.mem_mergeSort.1 hn)).1

theorem isPlain_child_of_mem_directoryNames (w : Walk) {t : Tree} (ht : t.WellFormed) {directory : Path}
    (hd : directory.IsPlain) {n : Text} (hn : n ∈ w.directoryNames t directory) : (directory.child n).IsPlain :=
  w.isPlain_child ht hd (List.mem_filter.1 (List.mem_mergeSort.1 hn)).1

theorem isPlain_of_mem_listFiles (w : Walk) {t : Tree} (ht : t.WellFormed) {directory p : Path} (hd : directory.IsPlain)
    (hp : p ∈ (w.listFiles t directory).files) : p.IsPlain := by
  obtain ⟨n, hn, hp⟩ := mem_all hp
  rw [eq_of_mem_listFile hp]
  exact w.isPlain_child_of_mem_fileNames ht hd hn

/-- All files below a directory of a well-formed tree have plain paths. -/
theorem isPlain_of_mem_listWithin (w : Walk) {t : Tree} (ht : t.WellFormed) (depth : Nat) {directory p : Path}
    (hd : directory.IsPlain) (hp : p ∈ (w.listWithin t depth directory).files) : p.IsPlain := by
  induction depth generalizing directory with
  | zero => cases hp
  | succ depth ih =>
    rw [listWithin, Found.andThen] at hp
    split at hp
    · rcases List.mem_append.1 hp with hp | hp
      · exact w.isPlain_of_mem_listFiles ht hd hp
      · obtain ⟨n, hn, hp⟩ := mem_all hp
        split at hp
        · exact ih (w.isPlain_child_of_mem_directoryNames ht hd hn) hp
        · cases hp
    · exact w.isPlain_of_mem_listFiles ht hd hp

theorem isPlain_of_mem_list? (w : Walk) {t : Tree} (ht : t.WellFormed) {root p : Path} (hroot : root.IsPlain)
    {found : Found} (hfound : w.list? t root = some found) (hp : p ∈ found.files) : p.IsPlain := by
  unfold list? at hfound
  split at hfound
  · cases hfound
    cases hp
  · cases hfound
    rw [List.mem_singleton.1 hp]
    exact hroot
  · split at hfound
    · cases hfound
      exact w.isPlain_of_mem_listWithin ht _ hroot hp
    · cases hfound

/-! ## Walks -/

/-- Visiting the files in a directory is going along the list of them. -/
theorem foldlM_visitFile_eq_follow (w : Walk) {view : σ → Tree} {visit : Path → σ → Except ε σ} {I : σ → Prop} {t : Tree}
    (ht : t.WellFormed) (hk : Keeps view visit I t) {directory : Path} (hd : directory.IsPlain) {s : σ} (hs : I s) :
    (w.fileNames t directory).foldlM (fun s n => w.visitFile view visit (directory.child n) s) s =
      (w.listFiles t directory).follow visit s := by
  refine hk.foldlM_eq_follow (w.fileNames t directory) (fun n hn s hs => ?_) (fun n hn p hp => ?_) hs
  · exact w.visitFile_eq_follow hk (directory.child n) hs
  · rw [eq_of_mem_listFile hp]
    exact w.isPlain_child_of_mem_fileNames ht hd hn

/-- Going through a directory is going along the files that are listed below it. -/
theorem within_eq_follow (w : Walk) {view : σ → Tree} {visit : Path → σ → Except ε σ} {I : σ → Prop} {t : Tree}
    (ht : t.WellFormed) (hk : Keeps view visit I t) (depth : Nat) {directory : Path} (hd : directory.IsPlain) {s : σ}
    (hs : I s) : w.within view visit depth directory s = (w.listWithin t depth directory).follow visit s := by
  induction depth generalizing directory s with
  | zero => rfl
  | succ depth ih =>
    have hfiles := w.foldlM_visitFile_eq_follow ht hk hd hs
    rw [within, fileNames_of_outline (hk.outline_eq s hs), directoryNames_of_outline (hk.outline_eq s hs), listWithin,
      Found.follow_andThen]
    simp only [hfiles]
    cases h : (w.listFiles t directory).follow visit s with
    | error e => rfl
    | ok s₁ =>
      have hs₁ : I s₁ := hk.follow (fun p hp => w.isPlain_of_mem_listFiles ht hd hp) hs h
      refine hk.foldlM_eq_follow (w.directoryNames t directory) (fun n hn s hs => ?_) (fun n hn p hp => ?_) hs₁
      · rw [enters_of_outline (hk.outline_eq s hs)]
        split
        · exact ih (w.isPlain_child_of_mem_directoryNames ht hd hn) hs
        · rfl
      · split at hp
        · exact w.isPlain_of_mem_listWithin ht depth (w.isPlain_child_of_mem_directoryNames ht hd hn) hp
        · cases hp

/-- A walk goes along the files that are listed at its root. -/
theorem run_eq_follow (w : Walk) {view : σ → Tree} {visit : Path → σ → Except ε σ} {I : σ → Prop} {t : Tree}
    (ht : t.WellFormed) (hk : Keeps view visit I t) {root : Path} (hroot : root.IsPlain) {s : σ} (hs : I s) :
    w.run view visit root s =
      match w.list? t root with
      | none => .error (.missing root)
      | some found => found.follow visit s := by
  unfold run fileAt list?
  rw [isFile_of_outline (hk.outline_eq s hs) w, isDirectory_of_outline (hk.outline_eq s hs) w,
    maxDepth_of_outline (hk.outline_eq s hs)]
  cases t.isFile w.work root with
  | error failure => rfl
  | ok isFile =>
    cases isFile with
    | true => exact (Found.follow_singleton visit root s).symm
    | false =>
      cases hdir : t.isDirectory w.work root with
      | false => rfl
      | true => exact w.within_eq_follow ht hk _ hroot hs

/-- A scan gives the files that are listed. -/
theorem scan_eq_list? (w : Walk) {t : Tree} (ht : t.WellFormed) {root : Path} (hroot : root.IsPlain) :
    w.scan t root = w.list? t root := by
  have hk : Keeps (fun _ : List Path => t) (fun p found => (.ok (p :: found) : Except Empty (List Path)))
      (fun _ => True) t := ⟨fun _ _ => rfl, fun _ _ _ _ _ _ => trivial⟩
  have hcollect (files found : List Path) :
      files.foldlM (fun s p => handle (fun p found => (.ok (p :: found) : Except Empty (List Path))) p s) found =
        .ok (files.reverse ++ found) := by
    induction files generalizing found with
    | nil => rfl
    | cons p rest ih =>
      rw [List.foldlM_cons, List.reverse_cons, List.append_assoc]
      exact ih (p :: found)
  rw [scan, w.run_eq_follow ht hk hroot trivial]
  cases w.list? t root with
  | none => rfl
  | some found =>
    obtain ⟨files, failure⟩ := found
    simp only [Found.follow, hcollect, bind, Except.bind]
    cases failure <;> simp

end SourceTidy.Walk
