import Mathlib.Data.List.Perm.Subperm
import SourceTidy.Proofs.Tree.WellFormed

/-!
# Real locations of what can be reached

Two procedures resolve links: the system, which counts the links that it follows (`Tree.locate`), and the replacement of
links by what they lead to (`Tree.realFrom`), which remembers the links that it is replacing. Where the system arrives, the
other one arrives as well (`real_of_locatePath`).

Both are compared with a relation that says how many links there are on a way. This number is what carries the proof: the
way from a link holds fewer links than a way through it, so no link lies on its own way, and the links that are being
replaced are all different.
-/

namespace SourceTidy.Tree

/-- Names lead from a directory to a location, over a number of links. -/
inductive Leads (t : Tree) : Location → List Text → Location → Nat → Prop where
  | done (directory : Location) : Leads t directory [] directory 0
  | up {directory l : Location} {rest : List Text} {n : Nat} (tail : Leads t directory.dropLast rest l n) :
      Leads t directory (Path.up :: rest) l n
  | here {directory l : Location} {rest : List Text} {n : Nat} (tail : Leads t directory rest l n) :
      Leads t directory (Path.here :: rest) l n
  | directory {directory l : Location} {name : Text} {rest : List Text} {n : Nat} (hup : name ≠ Path.up)
      (hhere : name ≠ Path.here) (hget : t.get? (directory ++ [name]) = some .directory)
      (tail : Leads t (directory ++ [name]) rest l n) : Leads t directory (name :: rest) l n
  | file {directory : Location} {name : Text} {mode : Nat} {content : Bytes} (hup : name ≠ Path.up)
      (hhere : name ≠ Path.here) (hget : t.get? (directory ++ [name]) = some (.file mode content)) :
      Leads t directory [name] (directory ++ [name]) 0
  | link {directory middle l : Location} {name target : Text} {rest : List Text} {m n : Nat} (hup : name ≠ Path.up)
      (hhere : name ≠ Path.here) (hget : t.get? (directory ++ [name]) = some (.link target))
      (way : Leads t (startOf target directory) (Path.stepsOf target) middle m) (tail : Leads t middle rest l n) :
      Leads t directory (name :: rest) l (m + n + 1)

theorem Leads.split_nil {t : Tree} {directory l : Location} {ys : List Text} {n : Nat} (h : Leads t directory ys l n) :
    ∃ middle a b, Leads t directory [] middle a ∧ Leads t middle ys l b ∧ n = a + b :=
  ⟨directory, 0, n, .done _, h, (Nat.zero_add n).symm⟩

/-- A way over two lists of names is a way over the first and one over the second. -/
theorem Leads.split {t : Tree} {directory l : Location} {n : Nat} (xs ys : List Text)
    (h : Leads t directory (xs ++ ys) l n) :
    ∃ middle a b, Leads t directory xs middle a ∧ Leads t middle ys l b ∧ n = a + b := by
  generalize hnames : xs ++ ys = names at h
  induction h generalizing xs with
  | done directory =>
    obtain ⟨rfl, rfl⟩ := List.append_eq_nil_iff.1 hnames
    exact ⟨directory, 0, 0, .done _, .done _, rfl⟩
  | @up directory l rest n tail ih =>
    cases xs with
    | nil =>
      obtain rfl : ys = _ := hnames
      exact split_nil (.up tail)
    | cons x xs =>
      obtain ⟨rfl, hrest⟩ := List.cons.inj hnames
      obtain ⟨middle, a, b, hxs, hys, rfl⟩ := ih xs hrest
      exact ⟨middle, a, b, .up hxs, hys, rfl⟩
  | @here directory l rest n tail ih =>
    cases xs with
    | nil =>
      obtain rfl : ys = _ := hnames
      exact split_nil (.here tail)
    | cons x xs =>
      obtain ⟨rfl, hrest⟩ := List.cons.inj hnames
      obtain ⟨middle, a, b, hxs, hys, rfl⟩ := ih xs hrest
      exact ⟨middle, a, b, .here hxs, hys, rfl⟩
  | @directory directory l name rest n hup hhere hget tail ih =>
    cases xs with
    | nil =>
      obtain rfl : ys = _ := hnames
      exact split_nil (.directory hup hhere hget tail)
    | cons x xs =>
      obtain ⟨rfl, hrest⟩ := List.cons.inj hnames
      obtain ⟨middle, a, b, hxs, hys, rfl⟩ := ih xs hrest
      exact ⟨middle, a, b, .directory hup hhere hget hxs, hys, rfl⟩
  | @file directory name mode content hup hhere hget =>
    cases xs with
    | nil =>
      obtain rfl : ys = _ := hnames
      exact split_nil (.file hup hhere hget)
    | cons x xs =>
      obtain ⟨rfl, hrest⟩ := List.cons.inj hnames
      obtain ⟨rfl, rfl⟩ := List.append_eq_nil_iff.1 hrest
      exact ⟨_, 0, 0, .file hup hhere hget, .done _, rfl⟩
  | @link directory mid l name target rest m n hup hhere hget way tail _ ih =>
    cases xs with
    | nil =>
      obtain rfl : ys = _ := hnames
      exact split_nil (.link hup hhere hget way tail)
    | cons x xs =>
      obtain ⟨rfl, hrest⟩ := List.cons.inj hnames
      obtain ⟨middle, a, b, hxs, hys, rfl⟩ := ih xs hrest
      exact ⟨middle, m + a + 1, b, .link hup hhere hget way hxs, hys, by omega⟩

/-- There is one way only: names lead to one location, over one number of links. -/
theorem Leads.unique {t : Tree} {directory l l' : Location} {names : List Text} {n n' : Nat}
    (h : Leads t directory names l n) (h' : Leads t directory names l' n') : l = l' ∧ n = n' := by
  induction h generalizing l' n' with
  | done directory =>
    cases h'
    exact ⟨rfl, rfl⟩
  | up tail ih =>
    cases h' with
    | up tail' => exact ih tail'
    | directory hup => exact absurd rfl hup
    | file hup => exact absurd rfl hup
    | link hup => exact absurd rfl hup
  | here tail ih =>
    cases h' with
    | here tail' => exact ih tail'
    | directory _ hhere => exact absurd rfl hhere
    | file _ hhere => exact absurd rfl hhere
    | link _ hhere => exact absurd rfl hhere
  | directory hup hhere hget tail ih =>
    cases h' with
    | up => exact absurd rfl hup
    | here => exact absurd rfl hhere
    | directory _ _ _ tail' => exact ih tail'
    | file _ _ hget' => cases hget.symm.trans hget'
    | link _ _ hget' => cases hget.symm.trans hget'
  | file hup hhere hget =>
    cases h' with
    | up => exact absurd rfl hup
    | here => exact absurd rfl hhere
    | directory _ _ hget' => cases hget.symm.trans hget'
    | file => exact ⟨rfl, rfl⟩
    | link _ _ hget' => cases hget.symm.trans hget'
  | link hup hhere hget way tail ihway ihtail =>
    cases h' with
    | up => exact absurd rfl hup
    | here => exact absurd rfl hhere
    | directory _ _ hget' => cases hget.symm.trans hget'
    | file _ _ hget' => cases hget.symm.trans hget'
    | link _ _ hget' way' tail' =>
      cases hget.symm.trans hget'
      obtain ⟨rfl, rfl⟩ := ihway way'
      obtain ⟨rfl, rfl⟩ := ihtail tail'
      exact ⟨rfl, rfl⟩

/-- Where the system arrives, there is a way, over no more links than it follows. -/
theorem leads_of_locate {t : Tree} {links : Nat} {directory l : Location} {names : List Text}
    (h : t.locate true links directory names = .ok l) : ∃ n ≤ links, Leads t directory names l n := by
  fun_induction locate t true links directory names with
  | case1 links directory =>
    cases h
    exact ⟨0, Nat.zero_le _, .done _⟩
  | case2 links directory rest ih =>
    obtain ⟨n, hn, tail⟩ := ih h
    exact ⟨n, hn, .up tail⟩
  | case3 links directory rest hup ih =>
    obtain ⟨n, hn, tail⟩ := ih h
    exact ⟨n, hn, .here tail⟩
  | case6 links directory name rest hup hhere hsize here hget ih =>
    obtain ⟨n, hn, tail⟩ := ih h
    exact ⟨n, hn, .directory hup hhere hget tail⟩
  | case7 links directory name rest hup hhere hsize here mode content hget hlast =>
    obtain rfl := Except.ok.inj h
    obtain rfl := List.isEmpty_iff.1 hlast
    exact ⟨0, Nat.zero_le _, .file hup hhere hget⟩
  | case9 links directory name rest hup hhere hsize here target hget hlast => simp at hlast
  | case11 directory name rest hup hhere hsize here target hget hlast links ih =>
    obtain ⟨n, hn, whole⟩ := ih h
    obtain ⟨middle, a, b, way, tail, rfl⟩ := Leads.split _ _ whole
    exact ⟨a + b + 1, Nat.succ_le_succ hn, .link hup hhere hget way tail⟩
  | _ => cases h

/-! ## Replacing links -/

/-- What holds of the links that are being replaced when a way over a number of links is left to be taken: they are
different links, there can be one more for every link of the tree that is not among them, and the way from none of them
has fewer links than the way that is left. -/
structure Replacing (t : Tree) (depth : Nat) (replaced : List Location) (left : Nat) : Prop where
  nodup : replaced.Nodup
  room : t.entries.length + 1 ≤ depth + replaced.length
  way : ∀ r ∈ replaced, r ∈ t.locations ∧ ∃ target middle n, t.get? r = some (.link target) ∧
    Leads t (startOf target r.dropLast) (Path.stepsOf target) middle n ∧ left ≤ n

theorem Replacing.mono {t : Tree} {depth : Nat} {replaced : List Location} {left left' : Nat}
    (h : Replacing t depth replaced left) (hle : left' ≤ left) : Replacing t depth replaced left' := by
  refine ⟨h.nodup, h.room, fun r hr => ?_⟩
  obtain ⟨hmem, target, middle, n, hget, way, hn⟩ := h.way r hr
  exact ⟨hmem, target, middle, n, hget, way, Nat.le_trans hle hn⟩

/-- A link on the way that is left is not being replaced yet, and it can be. -/
theorem Replacing.push {t : Tree} {depth : Nat} {replaced : List Location} {directory middle : Location}
    {name target : Text} {m n : Nat} (h : Replacing t depth replaced (m + n + 1))
    (hget : t.get? (directory ++ [name]) = some (.link target))
    (way : Leads t (startOf target directory) (Path.stepsOf target) middle m) :
    directory ++ [name] ∉ replaced ∧ ∃ d, depth = d + 1 ∧ Replacing t d ((directory ++ [name]) :: replaced) m := by
  have hmem := mem_locations_of_get? hget (by simp)
  have hnew : directory ++ [name] ∉ replaced := by
    intro hr
    obtain ⟨-, target', middle', n', hget', way', hn'⟩ := h.way _ hr
    cases hget.symm.trans hget'
    rw [List.dropLast_concat] at way'
    obtain ⟨-, rfl⟩ := way.unique way'
    omega
  have hnodup : ((directory ++ [name]) :: replaced).Nodup := List.nodup_cons.2 ⟨hnew, h.nodup⟩
  have hsub : (directory ++ [name]) :: replaced ⊆ t.locations := by
    intro r hr
    rcases List.mem_cons.1 hr with rfl | hr
    · exact hmem
    · exact (h.way r hr).1
  have hlength := (List.subperm_of_subset hnodup hsub).length_le
  have hroom := h.room
  rw [List.length_cons, locations, List.length_map] at hlength
  refine ⟨hnew, depth - 1, by omega, hnodup, by rw [List.length_cons]; omega, fun r hr => ?_⟩
  rcases List.mem_cons.1 hr with rfl | hr
  · refine ⟨hmem, target, middle, m, hget, ?_, Nat.le_refl m⟩
    rw [List.dropLast_concat]
    exact way
  · exact (h.mono (by omega)).way r hr

/-- The replacement of links arrives where the way leads. -/
theorem Leads.realFrom_eq {t : Tree} {directory l : Location} {names : List Text} {n : Nat}
    (h : Leads t directory names l n) {depth : Nat} {replaced : List Location} (hr : Replacing t depth replaced n) :
    t.realFrom depth replaced directory (names.filter (· != Path.here)) = (l, true) := by
  induction h generalizing depth replaced with
  | done directory => rw [List.filter_nil, realFrom]
  | up tail ih =>
    rw [List.filter_cons_of_pos (by decide), realFrom, if_pos rfl]
    exact ih hr
  | here tail ih =>
    rw [List.filter_cons_of_neg (by simp)]
    exact ih hr
  | directory hup hhere hget tail ih =>
    rw [List.filter_cons_of_pos (by simpa using hhere), realFrom, if_neg hup]
    simp only [hget]
    exact ih hr
  | file hup hhere hget =>
    rw [List.filter_cons_of_pos (by simpa using hhere), realFrom, if_neg hup]
    simp only [hget]
    rw [List.filter_nil, realFrom]
  | @link directory middle l name target rest m n hup hhere hget way tail ihway ihtail =>
    obtain ⟨hnew, d, rfl, hpush⟩ := hr.push hget way
    have hnames : (Path.stepsOf target).filter (· != Path.here) = Path.namesOf target := by
      rw [Path.stepsOf, List.filter_append, List.filter_filter, Path.namesOf]
      split <;> simp [Bool.and_comm]
    have hway := ihway hpush
    rw [hnames] at hway
    rw [List.filter_cons_of_pos (by simpa using hhere), realFrom, if_neg hup]
    simp only [hget, hway]
    rw [if_neg (by simpa using hnew)]
    exact ihtail (hr.mono (by omega))

/-- A plain path that leads to a location has it for its real location. -/
theorem real_of_locatePath {t : Tree} {work l : Location} {p : Path} (hp : p.IsPlain)
    (h : t.locatePath work p = .ok l) : t.real work p = l := by
  unfold locatePath at h
  cases hadmits : admits p with
  | error e =>
    rw [hadmits] at h
    cases h
  | ok u =>
    rw [hadmits] at h
    obtain ⟨n, -, hleads⟩ := leads_of_locate h
    have hnames : p.parts.filter (· != Path.here) = p.parts := by
      refine List.filter_eq_self.2 fun name hname => bne_iff_ne.2 ?_
      rintro rfl
      exact hp hname
    have hstart : Replacing t (t.entries.length + 1) [] n :=
      ⟨List.nodup_nil, by simp, fun r hr => absurd hr List.not_mem_nil⟩
    have := hleads.realFrom_eq hstart
    rw [hnames] at this
    rw [real, this]

end SourceTidy.Tree
