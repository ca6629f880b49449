import Mathlib
import SourceTidy.Proofs.Text.Order
import SourceTidy.Proofs.Tree.Descent
import SourceTidy.Proofs.Tree.Listing

/-!
# What a walk finds

A walk that follows no links to directories is compared with a description of what it is after: the paths below its root
that lead to regular files, whose names are accepted and not ignored, and on whose way down there are nothing but real
directories with names that are not ignored. It finds these, each once, and in the order of `Precedes`, as long as the system
takes every path that it asks about.

The walk is first turned into one over the list of all paths that it would ask about (`candidates`). Which paths are in this
list, and that they are in order, is shown by induction on the depth of the walk; what becomes of the list when the system
does not take a path is a matter of the list alone.

A tree has no permissions, and nothing but files, directories and links. How deep directories may lie in each other before
the stack of an interpreter is used up is not told by a tree either. So whatever comes of these is not spoken of here.
-/

namespace SourceTidy.Walk

/-! ## Asking about one path after another -/

namespace Found

@[simp] theorem nil_andThen (b : Found) : (⟨[], none⟩ : Found).andThen b = b := rfl

theorem andThen_assoc (a b c : Found) : (a.andThen b).andThen c = a.andThen (b.andThen c) := by
  obtain ⟨files, failure⟩ := a
  cases failure with
  | none =>
    obtain ⟨files', failure'⟩ := b
    cases failure' <;> simp [andThen]
  | some f => simp [andThen]

variable {α β : Type} (f : β → Found)

@[simp] theorem all_cons (x : β) (xs : List β) : all f (x :: xs) = (f x).andThen (all f xs) := rfl

theorem all_append (xs ys : List β) : all f (xs ++ ys) = (all f xs).andThen (all f ys) := by
  induction xs with
  | nil => rfl
  | cons x xs ih => rw [List.cons_append, all_cons, ih, all_cons, andThen_assoc]

theorem all_map (g : α → β) (xs : List α) : all f (xs.map g) = all (fun x => f (g x)) xs := by
  induction xs with
  | nil => rfl
  | cons x xs ih => rw [List.map_cons, all_cons, ih, all_cons]

theorem all_flatMap (g : α → List β) (xs : List α) : all f (xs.flatMap g) = all (fun x => all f (g x)) xs := by
  induction xs with
  | nil => rfl
  | cons x xs ih => rw [List.flatMap_cons, all_append, ih, all_cons]

/-- What is passed over need not be in the list. -/
theorem all_filter (c : β → Bool) (xs : List β) :
    all f (xs.filter c) = all (fun x => if c x then f x else ⟨[], none⟩) xs := by
  induction xs with
  | nil => rfl
  | cons x xs ih =>
    rw [all_cons, ← ih]
    cases hc : c x with
    | true => rw [List.filter_cons_of_pos hc, all_cons, if_pos rfl]
    | false => rw [List.filter_cons_of_neg (by simp [hc]), if_neg (by simp), nil_andThen]

end Found

/-- The paths that a walk asks about, in order, at most a number of levels below a directory. -/
def candidates (w : Walk) (t : Tree) : Nat → Path → List Path
  | 0, _ => []
  | depth + 1, directory =>
    (w.fileNames t directory).map directory.child ++
      ((w.directoryNames t directory).filter fun n => w.enters t (directory.child n)).flatMap fun n =>
        candidates w t depth (directory.child n)

/-- To go through a directory is to ask about one candidate after another. -/
theorem listWithin_eq_all (w : Walk) (t : Tree) (depth : Nat) (directory : Path) :
    w.listWithin t depth directory = Found.all (w.listFile t) (w.candidates t depth directory) := by
  induction depth generalizing directory with
  | zero => rfl
  | succ depth ih =>
    rw [listWithin, candidates, Found.all_append, Found.all_map, Found.all_flatMap, Found.all_filter, listFiles]
    simp only [ih]

/-- Whether a path leads to a regular file; one that the system does not take leads to none. -/
def hasFile (w : Walk) (t : Tree) (p : Path) : Bool :=
  match t.isFile w.work p with
  | .ok isFile => isFile
  | .error _ => false

theorem hasFile_iff (w : Walk) (t : Tree) (p : Path) : w.hasFile t p = true ↔ t.isFile w.work p = .ok true := by
  unfold hasFile
  cases t.isFile w.work p <;> simp

/-- What comes of asking about paths: all files among them, unless the system does not take one of them; then those before
it. -/
theorem all_listFile_spec (w : Walk) (t : Tree) (ps : List Path) :
    match (Found.all (w.listFile t) ps).failure with
    | none =>
      (∀ p ∈ ps, ∃ b, t.isFile w.work p = .ok b) ∧ (Found.all (w.listFile t) ps).files = ps.filter (w.hasFile t)
    | some f =>
      ∃ before after, ps = before ++ f.path :: after ∧ t.isFile w.work f.path = .error f ∧
        (∀ p ∈ before, ∃ b, t.isFile w.work p = .ok b) ∧
        (Found.all (w.listFile t) ps).files = before.filter (w.hasFile t) := by
  induction ps with
  | nil => exact ⟨fun p hp => absurd hp List.not_mem_nil, rfl⟩
  | cons p ps ih =>
    rw [Found.all_cons]
    cases hp : t.isFile w.work p with
    | error f =>
      have hlist : w.listFile t p = ⟨[], some f⟩ := by simp [listFile, hp]
      have hpath : f.path = p := by rw [Tree.refusal_of_isFile hp]
      rw [hlist, Found.andThen, if_neg (by simp)]
      exact ⟨[], ps, by rw [hpath]; rfl, by rw [hpath]; exact hp, fun q hq => absurd hq List.not_mem_nil, rfl⟩
    | ok isFile =>
      have hlist : w.listFile t p = ⟨[p].filter (w.hasFile t), none⟩ := by
        cases isFile <;> simp [listFile, hasFile, hp]
      rw [hlist, Found.andThen, if_pos rfl]
      cases hfailure : (Found.all (w.listFile t) ps).failure with
      | none =>
        rw [hfailure] at ih
        obtain ⟨htaken, hfiles⟩ := ih
        refine ⟨List.forall_mem_cons.2 ⟨⟨isFile, hp⟩, htaken⟩, ?_⟩
        rw [hfiles, ← List.filter_append]
        rfl
      | some f =>
        rw [hfailure] at ih
        obtain ⟨before, after, rfl, hf, htaken, hfiles⟩ := ih
        refine ⟨p :: before, after, rfl, hf, List.forall_mem_cons.2 ⟨⟨isFile, hp⟩, htaken⟩, ?_⟩
        rw [hfiles, ← List.filter_append]
        rfl

/-! ## The order of a walk -/

/-- The order of the files below a directory, by the names that lead to them from it: in every directory the files come first
and then its directories, both by code point, and each directory in full. -/
inductive Earlier : List Text → List Text → Prop where
  | files {n m : Text} (h : Text.lt n m = true) : Earlier [n] [m]
  | fileFirst {n m : Text} {ms : List Text} (hms : ms ≠ []) : Earlier [n] (m :: ms)
  | directories {n m : Text} {ns ms : List Text} (hns : ns ≠ []) (hms : ms ≠ []) (h : Text.lt n m = true) :
      Earlier (n :: ns) (m :: ms)
  | inside {n : Text} {ns ms : List Text} (h : Earlier ns ms) : Earlier (n :: ns) (n :: ms)

theorem not_earlier_nil (ns : List Text) : ¬ Earlier ns [] := by
  rintro ⟨⟩

theorem not_nil_earlier (ns : List Text) : ¬ Earlier [] ns := by
  rintro ⟨⟩

/-- Of two files only one comes before the other. -/
theorem Earlier.asymm {ns ms : List Text} (h : Earlier ns ms) : ¬ Earlier ms ns := by
  induction h with
  | files h =>
    intro h'
    cases h' with
    | files h' =>
      rw [Text.lt_asymm h] at h'
      cases h'
    | fileFirst hns => exact hns rfl
    | directories hns => exact hns rfl
    | inside h' => exact not_nil_earlier _ h'
  | fileFirst hms =>
    intro h'
    cases h' with
    | files => exact hms rfl
    | fileFirst hns => exact hns rfl
    | directories _ hns => exact hns rfl
    | inside h' => exact not_earlier_nil _ h'
  | directories hns hms h =>
    intro h'
    cases h' with
    | files => exact hns rfl
    | fileFirst => exact hms rfl
    | directories _ _ h' =>
      rw [Text.lt_asymm h] at h'
      cases h'
    | inside h' => simp at h
  | inside h ih =>
    intro h'
    cases h' with
    | files => exact not_nil_earlier _ h
    | fileFirst => exact not_earlier_nil _ h
    | directories _ _ h' => simp at h'
    | inside h' => exact ih h'

/-- A path below a root comes before another in the order of a walk. -/
def Precedes (root p q : Path) : Prop := ∃ ns ms, p = root.descend ns ∧ q = root.descend ms ∧ Earlier ns ms

theorem Precedes.asymm {root p q : Path} (h : Precedes root p q) : ¬ Precedes root q p := by
  obtain ⟨ns, ms, rfl, rfl, h⟩ := h
  rintro ⟨ms', ns', hms, hns, h'⟩
  obtain rfl := root.descend_injective hms
  obtain rfl := root.descend_injective hns
  exact h.asymm h'

theorem Precedes.ne {root p q : Path} (h : Precedes root p q) : p ≠ q := by
  rintro rfl
  exact h.asymm h

theorem Precedes.inside {root p q : Path} {n : Text} (h : Precedes (root.child n) p q) : Precedes root p q := by
  obtain ⟨ns, ms, rfl, rfl, h⟩ := h
  exact ⟨n :: ns, n :: ms, (root.descend_cons n ns).symm, (root.descend_cons n ms).symm, .inside h⟩

/-- A candidate below a directory has at least one name more than it. -/
theorem exists_descend_of_mem_candidates {w : Walk} {t : Tree} {depth : Nat} {directory p : Path}
    (h : p ∈ w.candidates t depth directory) : ∃ ns ≠ [], p = directory.descend ns := by
  induction depth generalizing directory with
  | zero => cases h
  | succ depth ih =>
    rw [candidates, List.mem_append, List.mem_map, List.mem_flatMap] at h
    rcases h with ⟨n, -, rfl⟩ | ⟨n, -, hp⟩
    · exact ⟨[n], by simp, rfl⟩
    · obtain ⟨ns, -, rfl⟩ := ih hp
      exact ⟨n :: ns, by simp, (directory.descend_cons n ns).symm⟩

theorem nodup_namesIn (w : Walk) {t : Tree} (ht : t.WellFormed) (directory : Path) : (w.namesIn t directory).Nodup := by
  unfold namesIn
  split
  · exact ht.nodup_names _
  · exact List.nodup_nil

/-- The candidates below a directory are in the order of a walk. -/
theorem pairwise_candidates (w : Walk) {t : Tree} (ht : t.WellFormed) (depth : Nat) (directory : Path) :
    (w.candidates t depth directory).Pairwise (Precedes directory) := by
  induction depth generalizing directory with
  | zero => exact List.Pairwise.nil
  | succ depth ih =>
    have hnames := w.nodup_namesIn ht directory
    rw [candidates, List.pairwise_append, List.pairwise_map, List.pairwise_flatMap]
    refine ⟨?_, ⟨fun n _ => (ih (directory.child n)).imp Precedes.inside, ?_⟩, ?_⟩
    · exact (Text.pairwise_lt_sort (hnames.filter _)).imp fun h => ⟨_, _, rfl, rfl, .files h⟩
    · refine ((Text.pairwise_lt_sort (hnames.filter _)).filter _).imp ?_
      intro n m h p hp q hq
      obtain ⟨ns, hns, rfl⟩ := exists_descend_of_mem_candidates hp
      obtain ⟨ms, hms, rfl⟩ := exists_descend_of_mem_candidates hq
      exact ⟨n :: ns, m :: ms, (directory.descend_cons n ns).symm, (directory.descend_cons m ms).symm,
        .directories hns hms h⟩
    · intro p hp q hq
      obtain ⟨n, -, rfl⟩ := List.mem_map.1 hp
      obtain ⟨m, -, hq⟩ := List.mem_flatMap.1 hq
      obtain ⟨ms, hms, rfl⟩ := exists_descend_of_mem_candidates hq
      exact ⟨[n], m :: ms, rfl, (directory.descend_cons m ms).symm, .fileFirst hms⟩

/-! ## What a walk is after -/

/-- The way down from a location leads through directories alone whose names are not ignored. -/
def IsOpen (w : Walk) (t : Tree) (l : Location) (above : List Text) : Prop :=
  ∀ names n, names ++ [n] <+: above → t.get? (l ++ names ++ [n]) = some .directory ∧ w.ignore.accepts n = false

/-- Below a location there is an entry that is no directory; its name is accepted and not ignored, and the way down to it is
open. -/
structure Offers (w : Walk) (t : Tree) (l : Location) (above : List Text) (name : Text) : Prop where
  isOpen : w.IsOpen t l above
  admits : w.admits name = true
  entry : ∃ e, t.get? (l ++ above ++ [name]) = some e ∧ e ≠ .directory

/-- A path that a walk is after: it leads to a regular file, be it through a link at its end. -/
def IsWanted (w : Walk) (t : Tree) (root : Path) (l : Location) (p : Path) : Prop :=
  ∃ above name, p = root.descend (above ++ [name]) ∧ w.Offers t l above name ∧ t.isFile w.work p = .ok true

/-- A path that a walk has to ask about: the directory that holds it can be read. -/
def IsCandidate (w : Walk) (t : Tree) (root : Path) (l : Location) (p : Path) : Prop :=
  ∃ above name, p = root.descend (above ++ [name]) ∧ w.Offers t l above name ∧
    t.locatePath w.work (root.descend above) = .ok (l ++ above)

theorem isOpen_nil (w : Walk) (t : Tree) (l : Location) : w.IsOpen t l [] := by
  intro names n h
  simp at h

theorem isOpen_cons_iff (w : Walk) (t : Tree) (l : Location) (n : Text) (above : List Text) :
    w.IsOpen t l (n :: above) ↔
      (t.get? (l ++ [n]) = some .directory ∧ w.ignore.accepts n = false) ∧ w.IsOpen t (l ++ [n]) above := by
  constructor
  · intro h
    refine ⟨by simpa using h [] n (by simp), ?_⟩
    intro names m hm
    simpa using h (n :: names) m (by simpa using hm)
  · rintro ⟨hn, h⟩ names m hm
    cases names with
    | nil =>
      obtain ⟨rfl, -⟩ := List.cons_prefix_cons.1 hm
      simpa using hn
    | cons k names =>
      rw [List.cons_append] at hm
      obtain ⟨rfl, hrest⟩ := List.cons_prefix_cons.1 hm
      have hway : l ++ k :: names = l ++ [k] ++ names := by simp
      rw [hway]
      exact h names m hrest

theorem offers_cons_iff (w : Walk) (t : Tree) (l : Location) (n : Text) (above : List Text) (name : Text) :
    w.Offers t l (n :: above) name ↔
      (t.get? (l ++ [n]) = some .directory ∧ w.ignore.accepts n = false) ∧ w.Offers t (l ++ [n]) above name := by
  have hway : l ++ n :: above ++ [name] = l ++ [n] ++ above ++ [name] := by simp
  constructor
  · rintro ⟨hopen, hadmits, hentry⟩
    obtain ⟨hn, hopen⟩ := (w.isOpen_cons_iff t l n above).1 hopen
    exact ⟨hn, hopen, hadmits, hway ▸ hentry⟩
  · rintro ⟨hn, hopen, hadmits, hentry⟩
    exact ⟨(w.isOpen_cons_iff t l n above).2 ⟨hn, hopen⟩, hadmits, hway ▸ hentry⟩

section Below

variable {w : Walk} {t : Tree}

/-- An open way is no longer than the tree has entries. -/
theorem IsOpen.length_le {l : Location} {above : List Text} (h : w.IsOpen t l above) :
    above.length ≤ t.entries.length := by
  have hsub : (List.range above.length).map (fun k => l ++ above.take (k + 1)) ⊆ t.locations := by
    intro m hm
    obtain ⟨k, hk, rfl⟩ := List.mem_map.1 hm
    have hlt : k < above.length := List.mem_range.1 hk
    have htake : above.take (k + 1) = above.take k ++ [above[k]] := List.take_succ_eq_append_getElem hlt
    have hget := (h _ _ (htake ▸ List.take_prefix (k + 1) above)).1
    rw [htake, ← List.append_assoc]
    refine (Tree.isSome_get?_iff t (List.append_ne_nil_of_right_ne_nil _ (List.cons_ne_nil _ _))).1 ?_
    rw [hget]
    rfl
  have hnodup : ((List.range above.length).map fun k => l ++ above.take (k + 1)).Nodup := by
    refine List.Nodup.map_on (fun j hj k hk hjk => ?_) List.nodup_range
    have hlength := congrArg List.length (List.append_cancel_left hjk)
    rw [List.length_take, List.length_take] at hlength
    have hj := List.mem_range.1 hj
    have hk := List.mem_range.1 hk
    omega
  have hlength := (List.subperm_of_subset hnodup hsub).length_le
  rwa [List.length_map, List.length_range, Tree.locations, List.length_map] at hlength

section Names

variable {directory : Path} {l : Location} (h : t.IsAt w.work directory l)
include h

theorem namesIn_eq : w.namesIn t directory = t.names l := by
  rw [namesIn, h.leads]

theorem holdsDirectory_eq (n : Text) :
    w.holdsDirectory t directory n = (t.get? (l ++ [n]) == some .directory || t.isDirectory w.work (directory.child n)) := by
  rw [holdsDirectory, h.leads]

/-- The names of files in a directory that a walk asks about. -/
theorem mem_fileNames_iff (n : Text) :
    n ∈ w.fileNames t directory ↔
      w.Offers t l [] n ∧ t.isDirectory w.work (directory.child n) = false := by
  rw [fileNames, Text.mem_sort, List.mem_filter, namesIn_eq h, holdsDirectory_eq h]
  constructor
  · rintro ⟨hn, hfile⟩
    obtain ⟨e, he⟩ := Option.isSome_iff_exists.1 ((Tree.isSome_get?_iff t (by simp)).2 ((t.mem_names_iff l n).1 hn))
    simp only [Bool.and_eq_true, Bool.not_eq_true', Bool.or_eq_false_iff, beq_eq_false_iff_ne] at hfile
    obtain ⟨⟨hentry, hdirectory⟩, hadmits⟩ := hfile
    refine ⟨⟨w.isOpen_nil t l, hadmits, e, by simpa using he, ?_⟩, hdirectory⟩
    rintro rfl
    exact hentry he
  · rintro ⟨⟨-, hadmits, e, he, hne⟩, hdirectory⟩
    rw [List.append_nil] at he
    refine ⟨Tree.mem_names_of_get? he, ?_⟩
    simp [hadmits, hdirectory, he, hne]

end Names

variable (ht : t.WellFormed)
include ht

/-- A path that leads anywhere leads to a directory at every place of an open way. -/
theorem isAt_descend {directory : Path} {l : Location} (h : t.IsAt w.work directory l) {above : List Text}
    (hopen : w.IsOpen t l above) {more : List Text} {m : Location}
    (hm : t.locatePath w.work (directory.descend (above ++ more)) = .ok m) :
    t.IsAt w.work (directory.descend above) (l ++ above) := by
  induction above generalizing directory l with
  | nil => simpa using h
  | cons n above ih =>
    obtain ⟨⟨hn, -⟩, hopen⟩ := (w.isOpen_cons_iff t l n above).1 hopen
    have hchild := h.child (ht.isName_of_mem_names (Tree.mem_names_of_get? hn)) hn hm
    rw [List.cons_append, Path.descend_cons] at hm
    have := ih hchild hopen hm
    rwa [← Path.descend_cons, List.append_assoc] at this

/-- The directories in a directory that a walk goes through, when it follows no links. -/
theorem mem_entered_iff {directory : Path} {l : Location} (h : t.IsAt w.work directory l) (hfollow : w.followsLinks = false)
    (n : Text) :
    n ∈ (w.directoryNames t directory).filter (fun n => w.enters t (directory.child n)) ↔
      t.get? (l ++ [n]) = some .directory ∧ w.ignore.accepts n = false := by
  rw [List.mem_filter, directoryNames, Text.mem_sort, List.mem_filter, namesIn_eq h, holdsDirectory_eq h, enters, hfollow]
  constructor
  · rintro ⟨⟨hn, hkept⟩, hlink⟩
    simp only [Bool.and_eq_true, Bool.not_eq_true', Bool.or_eq_true, beq_iff_eq, Bool.false_or] at hkept hlink
    refine ⟨hkept.1.elim id fun hdirectory => ?_, hkept.2⟩
    exact h.directory_of_isDirectory_child (ht.isName_of_mem_names hn) hdirectory hlink
  · rintro ⟨hget, hignored⟩
    refine ⟨⟨Tree.mem_names_of_get? hget, by simp [hget, hignored]⟩, ?_⟩
    simp [h.isLink_child_of_directory (ht.isName_of_mem_names (Tree.mem_names_of_get? hget)) hget]

omit ht in
/-- In a directory that the system does not take a walk asks about nothing. -/
theorem candidates_of_error (w : Walk) {t : Tree} (depth : Nat) {directory : Path} {e : SystemError}
    (h : t.locatePath w.work directory = .error e) : w.candidates t depth directory = [] := by
  have hnames : w.namesIn t directory = [] := by rw [namesIn, h]
  cases depth with
  | zero => rfl
  | succ depth => simp [candidates, fileNames, directoryNames, hnames, Text.sort]

/-- The candidates of a walk that follows no links to directories. -/
theorem mem_candidates_iff (hfollow : w.followsLinks = false) {depth : Nat} {directory : Path} {l : Location}
    (h : t.IsAt w.work directory l) (p : Path) :
    p ∈ w.candidates t depth directory ↔
      ∃ above name, p = directory.descend (above ++ [name]) ∧ above.length < depth ∧ w.Offers t l above name ∧
        t.locatePath w.work (directory.descend above) = .ok (l ++ above) ∧ t.isDirectory w.work p = false := by
  induction depth generalizing directory l with
  | zero => simp [candidates]
  | succ depth ih =>
    rw [candidates, List.mem_append, List.mem_map, List.mem_flatMap]
    simp only [mem_fileNames_iff h, mem_entered_iff ht h hfollow]
    constructor
    · rintro (⟨n, ⟨hoffers, hdirectory⟩, rfl⟩ | ⟨n, hn, hp⟩)
      · exact ⟨[], n, rfl, Nat.succ_pos depth, hoffers, by simpa using h.leads, hdirectory⟩
      · cases hlocate : t.locatePath w.work (directory.child n) with
        | error e =>
          rw [w.candidates_of_error depth hlocate] at hp
          cases hp
        | ok m =>
          have hbelow : t.locatePath w.work (directory.descend [n]) = .ok m := hlocate
          have hchild := h.child (ht.isName_of_mem_names (Tree.mem_names_of_get? hn.1)) hn.1 hbelow
          obtain ⟨above, name, rfl, hdepth, hoffers, hleads, hdirectory⟩ := (ih hchild).1 hp
          refine ⟨n :: above, name, (directory.descend_cons n _).symm, Nat.succ_lt_succ hdepth,
            (w.offers_cons_iff t l n above name).2 ⟨hn, hoffers⟩, ?_, hdirectory⟩
          rw [Path.descend_cons, hleads, List.append_assoc]
          rfl
    · rintro ⟨above, name, rfl, hdepth, hoffers, hleads, hdirectory⟩
      cases above with
      | nil => exact .inl ⟨name, ⟨hoffers, hdirectory⟩, rfl⟩
      | cons n above =>
        obtain ⟨hn, hoffers⟩ := (w.offers_cons_iff t l n above name).1 hoffers
        have hchild := h.child (ht.isName_of_mem_names (Tree.mem_names_of_get? hn.1)) hn.1 hleads
        refine .inr ⟨n, hn, (ih hchild).2 ⟨above, name, directory.descend_cons n _, Nat.lt_of_succ_lt_succ hdepth, hoffers,
          ?_, hdirectory⟩⟩
        rw [← Path.descend_cons, hleads, List.append_assoc]
        rfl

section Root

variable (hfollow : w.followsLinks = false) {root : Path} {l : Location} (h : t.IsAt w.work root l)
include hfollow h

/-- A walk from a directory goes as deep as there are candidates. -/
theorem mem_candidates_maxDepth_iff (p : Path) :
    p ∈ w.candidates t (maxDepth t) root ↔ w.IsCandidate t root l p ∧ t.isDirectory w.work p = false := by
  rw [mem_candidates_iff ht hfollow h]
  constructor
  · rintro ⟨above, name, hp, -, hoffers, hleads, hdirectory⟩
    exact ⟨⟨above, name, hp, hoffers, hleads⟩, hdirectory⟩
  · rintro ⟨⟨above, name, hp, hoffers, hleads⟩, hdirectory⟩
    have hlength : above.length < maxDepth t := by
      have := hoffers.isOpen.length_le
      rw [maxDepth, Tree.maxLinks]
      omega
    exact ⟨above, name, hp, hlength, hoffers, hleads, hdirectory⟩

/-- What a walk is after are the candidates that lead to files. -/
theorem isWanted_iff (p : Path) :
    w.IsWanted t root l p ↔ p ∈ w.candidates t (maxDepth t) root ∧ t.isFile w.work p = .ok true := by
  rw [mem_candidates_maxDepth_iff ht hfollow h]
  constructor
  · rintro ⟨above, name, rfl, hoffers, hfile⟩
    obtain ⟨m, mode, content, hm, -⟩ := (Tree.isFile_eq_true_iff t w.work _).1 hfile
    refine ⟨⟨⟨above, name, rfl, hoffers, (isAt_descend ht h hoffers.isOpen hm).leads⟩, ?_⟩, hfile⟩
    cases hdirectory : t.isDirectory w.work (root.descend (above ++ [name])) with
    | false => rfl
    | true =>
      rw [Tree.isFile_of_isDirectory hdirectory] at hfile
      cases hfile
  · rintro ⟨⟨⟨above, name, rfl, hoffers, -⟩, -⟩, hfile⟩
    exact ⟨above, name, rfl, hoffers, hfile⟩

/-- The system takes a candidate if it takes all of those that a walk asks about, since others are directories. -/
theorem IsCandidate.taken {p : Path} (hp : w.IsCandidate t root l p)
    (htaken : p ∈ w.candidates t (maxDepth t) root → ∃ b, t.isFile w.work p = .ok b) : ∃ b, t.isFile w.work p = .ok b := by
  cases hdirectory : t.isDirectory w.work p with
  | true => exact ⟨false, Tree.isFile_of_isDirectory hdirectory⟩
  | false => exact htaken ((mem_candidates_maxDepth_iff ht hfollow h p).2 ⟨hp, hdirectory⟩)

end Root
end Below

/-- A walk without following links, from a root that exists.

A file is its own walk, whatever the masks. From a directory a walk finds paths that are in order, each once. If it comes to
its end, the system takes every path that it had to ask about, and it has found exactly what it is after. Otherwise it has
come to a path that it had to ask about and that is too long for the system, or has too long a name on its way. Then it has
found exactly those paths that it is after and that come before this one, and the system has taken all that do. -/
theorem scan_finds_wanted_in_order (w : Walk) (t : Tree) (root : Path) (hfollow : w.followsLinks = false)
    (ht : t.WellFormed) (hroot : root.IsPlain) :
    (t.isFile w.work root = .ok true → w.scan t root = some ⟨[root], none⟩) ∧
    (t.isDirectory w.work root = true →
      ∃ l found, t.locatePath w.work root = .ok l ∧ w.scan t root = some found ∧
        found.files.Pairwise (Precedes root) ∧ found.files.Nodup ∧
        match found.failure with
        | none =>
          (∀ p, w.IsCandidate t root l p → ∃ b, t.isFile w.work p = .ok b) ∧
            ∀ p, p ∈ found.files ↔ w.IsWanted t root l p
        | some f =>
          f.reason = .nameTooLong ∧ w.IsCandidate t root l f.path ∧ t.isFile w.work f.path = .error f ∧
            (∀ p, w.IsCandidate t root l p → Precedes root p f.path → ∃ b, t.isFile w.work p = .ok b) ∧
            ∀ p, p ∈ found.files ↔ w.IsWanted t root l p ∧ Precedes root p f.path) := by
  have hscan := w.scan_eq_list? ht hroot
  constructor
  · intro hfile
    rw [hscan, list?, hfile]
  intro hdirectory
  obtain ⟨l, hleads, hget⟩ := (Tree.isDirectory_iff t w.work root).1 hdirectory
  have h : t.IsAt w.work root l := ⟨hleads, hget⟩
  have hlist : w.list? t root = some (Found.all (w.listFile t) (w.candidates t (maxDepth t) root)) := by
    rw [list?, Tree.isFile_of_isDirectory hdirectory, ← listWithin_eq_all]
    exact if_pos hdirectory
  have hspec := w.all_listFile_spec t (w.candidates t (maxDepth t) root)
  have horder := w.pairwise_candidates ht (maxDepth t) root
  refine ⟨l, _, hleads, hscan.trans hlist, ?_⟩
  generalize Found.all (w.listFile t) (w.candidates t (maxDepth t) root) = found at hspec
  have hnodup (hfiles : found.files.Pairwise (Precedes root)) : found.files.Nodup := hfiles.imp fun hpq => hpq.ne
  cases hfailure : found.failure with
  | none =>
    rw [hfailure] at hspec
    obtain ⟨htaken, hfiles⟩ := hspec
    have hpairwise : found.files.Pairwise (Precedes root) := hfiles ▸ horder.filter _
    refine ⟨hpairwise, hnodup hpairwise, fun p hp => hp.taken ht hfollow h (htaken p), ?_⟩
    intro p
    rw [hfiles, List.mem_filter, hasFile_iff, isWanted_iff ht hfollow h]
  | some f =>
    rw [hfailure] at hspec
    obtain ⟨before, after, hcandidates, hrefused, htaken, hfiles⟩ := hspec
    have hmiddle := List.pairwise_append.1 (hcandidates ▸ horder)
    have hbefore (p : Path) (hp : p ∈ before) : Precedes root p f.path := hmiddle.2.2 p hp _ List.mem_cons_self
    have hafter (p : Path) (hp : p ∈ after) : Precedes root f.path p := List.rel_of_pairwise_cons hmiddle.2.1 hp
    have hpairwise : found.files.Pairwise (Precedes root) := hfiles ▸ hmiddle.1.filter _
    -- of the candidates only those that come before the refused one have been asked about
    have hasked (p : Path) (hp : p ∈ w.candidates t (maxDepth t) root) : p ∈ before ↔ Precedes root p f.path := by
      refine ⟨hbefore p, ?_⟩
      intro hprecedes
      rw [hcandidates, List.mem_append, List.mem_cons] at hp
      rcases hp with hp | rfl | hp
      · exact hp
      · exact absurd rfl hprecedes.ne
      · exact absurd hprecedes (hafter p hp).asymm
    have hmem (p : Path) (hp : p ∈ before) : p ∈ w.candidates t (maxDepth t) root := by
      rw [hcandidates]
      exact List.mem_append_left _ hp
    have hpath : f.path ∈ w.candidates t (maxDepth t) root := by
      rw [hcandidates]
      simp
    refine ⟨hpairwise, hnodup hpairwise, ?_, ((mem_candidates_maxDepth_iff ht hfollow h _).1 hpath).1, hrefused, ?_, ?_⟩
    · rw [Tree.refusal_of_isFile hrefused]
    · intro p hp hprecedes
      exact hp.taken ht hfollow h fun hcandidate => htaken p ((hasked p hcandidate).2 hprecedes)
    · intro p
      rw [hfiles, List.mem_filter, hasFile_iff, isWanted_iff ht hfollow h]
      constructor
      · rintro ⟨hp, hfile⟩
        exact ⟨⟨hmem p hp, hfile⟩, hbefore p hp⟩
      · rintro ⟨⟨hp, hfile⟩, hprecedes⟩
        exact ⟨(hasked p hp).2 hprecedes, hfile⟩

namespace DiscoveryWitness

/-- A walk that accepts every name but ignores one. -/
def walk : Walk := ⟨.ofList ["*"], .ofList ["tmp"], false, []⟩

/-- The root of the walks. -/
def root : Path := .ofText "/r"

/-- A directory with files, directories of which one is ignored, and links to a file, to a directory and to nothing. -/
def tree : Tree :=
  ⟨[(["r"], .directory), (["r", "z.txt"], .link "d/c.txt"), (["r", "d"], .directory), (["r", "d", "c.txt"], .file 0o644 []),
    (["r", "l"], .link "d"), (["r", "b.txt"], .file 0o644 []), (["r", "tmp"], .directory),
    (["r", "tmp", "e.txt"], .file 0o644 []), (["r", "x.txt"], .link "none")]⟩

/-- A directory with a link between two files; the name that it leads to is too long for the system. -/
def linked : Tree :=
  ⟨[(["r"], .directory), (["r", "a.txt"], .file 0o644 []), (["r", "l.txt"], .link (List.replicate 256 ('a' : CodePoint))),
    (["r", "m.txt"], .file 0o644 [])]⟩

theorem scan_tree :
    walk.scan tree root = some ⟨[root.child "b.txt", root.child "z.txt", (root.child "d").child "c.txt"], none⟩ := by
  cbv

set_option maxRecDepth 4000 in
theorem scan_linked : walk.scan linked root = some ⟨[root.child "a.txt"], some ⟨root.child "l.txt", .nameTooLong⟩⟩ := by
  cbv

end DiscoveryWitness

open DiscoveryWitness in
set_option maxRecDepth 4000 in
/-- A walk stops at a link whose target has too long a name, and then it does not find a file that it is after and that
comes after the link. -/
theorem scan_misses_file_after_long_link :
    linked.WellFormed ∧ linked.isDirectory [] root = true ∧
      walk.IsWanted linked root ["r"] (root.child "m.txt") ∧
      ∀ found, walk.scan linked root = some found → root.child "m.txt" ∉ found.files := by
  have hoffers : walk.Offers linked ["r"] [] "m.txt" :=
    ⟨walk.isOpen_nil _ _, by cbv, .file 0o644 [], by cbv, by simp⟩
  refine ⟨by decide +kernel, by cbv, ⟨[], "m.txt", rfl, hoffers, by cbv⟩, ?_⟩
  intro found hfound
  rw [scan_linked] at hfound
  cases hfound
  decide

open DiscoveryWitness in
/-- A walk that comes to its end: it passes over the link to a directory, the link to nothing and the ignored directory, and
finds the file in the other directory last. -/
theorem scan_finds_wanted_witness :
    walk.followsLinks = false ∧ tree.WellFormed ∧ root.IsPlain ∧ tree.isDirectory [] root = true ∧
      walk.scan tree root = some ⟨[root.child "b.txt", root.child "z.txt", (root.child "d").child "c.txt"], none⟩ ∧
      Precedes root (root.child "z.txt") ((root.child "d").child "c.txt") ∧
      ∀ p, p ∈ [root.child "b.txt", root.child "z.txt", (root.child "d").child "c.txt"] ↔
        walk.IsWanted tree root ["r"] p := by
  have hwf : tree.WellFormed := by decide +kernel
  have hroot : root.IsPlain := Path.isPlain_ofText _
  have hdirectory : tree.isDirectory [] root = true := by cbv
  obtain ⟨l, found, hleads, hscan, horder, -, hspec⟩ :=
    (scan_finds_wanted_in_order walk tree root rfl hwf hroot).2 hdirectory
  have hl : tree.locatePath [] root = .ok ["r"] := by cbv
  obtain rfl : l = ["r"] := Except.ok.inj (hleads.symm.trans hl)
  rw [scan_tree] at hscan
  cases hscan
  refine ⟨rfl, hwf, hroot, hdirectory, scan_tree, ?_, hspec.2⟩
  exact List.rel_of_pairwise_cons (List.pairwise_cons.1 horder).2 (by simp)

end SourceTidy.Walk
