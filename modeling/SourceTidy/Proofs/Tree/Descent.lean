import SourceTidy.Proofs.Attempt
import SourceTidy.Proofs.Tree.WellFormed

/-!
# Going down from a directory

A path that leads to a directory leads, with one more name, to the entry of that name in the directory, as long as the system
takes the path and the name (`IsAt.locate_child`). What the system takes it takes up to any name on the way
(`admits_of_descend`), so a longer path that leads anywhere has a directory at each of its initial parts
(`IsAt.child_of_descend`).
-/

namespace SourceTidy

namespace Path

/-- The path with more names. -/
def descend (p : Path) (names : List Text) : Path := { p with parts := p.parts ++ names }

@[simp] theorem descend_nil (p : Path) : p.descend [] = p := by
  simp [descend]

theorem descend_cons (p : Path) (n : Text) (names : List Text) : p.descend (n :: names) = (p.child n).descend names := by
  simp [descend, child]

theorem descend_injective (p : Path) : Function.Injective p.descend := by
  intro xs ys h
  exact List.append_cancel_left (congrArg Path.parts h)

end Path

theorem Text.join_concat (separator n : Text) (ts : List Text) :
    join separator (ts ++ [n]) = if ts = [] then n else join separator ts ++ separator ++ n := by
  induction ts with
  | nil => rfl
  | cons t ts ih =>
    cases ts with
    | nil => rfl
    | cons u rest =>
      rw [if_neg (by simp)] at ih
      rw [if_neg (by simp), List.cons_append, List.cons_append, join, ← List.cons_append, ih, join]
      simp only [List.append_assoc]

namespace Utf8

theorem size_append (s t : Text) : size (s ++ t) = size s + size t := by
  simp [size]

end Utf8

namespace Tree

/-! ## Paths that the system takes -/

theorem admits_eq_ok_iff (p : Path) :
    admits p = .ok () ↔ Path.null ∉ p.text ∧ Utf8.size p.text ≤ longestPath := by
  unfold admits
  split
  · rename_i hnull
    simp_all
  · rename_i hnull
    split
    · rename_i hsize
      simp [Nat.not_le.2 hsize]
    · rename_i hsize
      simp_all

/-- The written form of a path begins the one of the path with one more name, unless it is a point that stands for a path
without names. -/
theorem text_child (p : Path) (n : Text) : p.text = Path.here ∨ ∃ more, (p.child n).text = p.text ++ more := by
  have hnames : ∃ more, Text.join [Path.slash] (p.child n).parts = Text.join [Path.slash] p.parts ++ more := by
    simp only [Path.child, Text.join_concat]
    split
    · rename_i hparts
      exact ⟨n, by simp [hparts, Text.join]⟩
    · exact ⟨[Path.slash] ++ n, by rw [List.append_assoc]⟩
  obtain ⟨more, hmore⟩ := hnames
  have hanchor : (p.child n).anchor = p.anchor := rfl
  simp only [Path.text, hanchor, hmore]
  cases p.anchor with
  | root => exact .inr ⟨more, rfl⟩
  | doubleRoot => exact .inr ⟨more, rfl⟩
  | relative =>
    cases hempty : (Text.join [Path.slash] p.parts).isEmpty with
    | true => exact .inl rfl
    | false =>
      right
      refine ⟨more, ?_⟩
      simp only [Bool.false_eq_true, if_false]
      rw [if_neg]
      simp only [List.isEmpty_eq_false_iff] at hempty
      simp [hempty]

/-- What the system takes it takes without its last name. -/
theorem admits_of_child {p : Path} {n : Text} (h : admits (p.child n) = .ok ()) : admits p = .ok () := by
  rw [admits_eq_ok_iff] at h ⊢
  rcases text_child p n with hhere | ⟨more, hmore⟩
  · rw [hhere]
    decide
  · rw [hmore, List.mem_append, not_or, Utf8.size_append] at h
    exact ⟨h.1.1, by omega⟩

theorem admits_of_descend {p : Path} (names : List Text) (h : admits (p.descend names) = .ok ()) : admits p = .ok () := by
  induction names generalizing p with
  | nil =>
    rw [Path.descend_nil] at h
    exact h
  | cons n names ih =>
    rw [Path.descend_cons] at h
    exact admits_of_child (ih h)

/-! ## One way after another -/

/-- From the directory that names lead to, the way goes on with the links that are left. -/
theorem locate_append {t : Tree} {links : Nat} {directory l : Location} {names : List Text}
    (h : t.locate true links directory names = .ok l) (hl : t.get? l = some .directory) :
    ∃ left, ∀ followLast more, more ≠ [] →
      t.locate followLast links directory (names ++ more) = t.locate followLast left l more := by
  fun_induction locate t true links directory names with
  | case1 links directory =>
    cases h
    exact ⟨links, fun _ _ _ => rfl⟩
  | case2 links directory rest ih =>
    obtain ⟨left, hleft⟩ := ih h
    refine ⟨left, fun followLast more hmore => ?_⟩
    rw [← hleft followLast more hmore, List.cons_append, locate, if_pos rfl]
  | case3 links directory rest hup ih =>
    obtain ⟨left, hleft⟩ := ih h
    refine ⟨left, fun followLast more hmore => ?_⟩
    rw [← hleft followLast more hmore, List.cons_append, locate, if_neg hup, if_pos rfl]
  | case6 links directory name rest hup hhere hsize here hget ih =>
    obtain ⟨left, hleft⟩ := ih h
    refine ⟨left, fun followLast more hmore => ?_⟩
    rw [← hleft followLast more hmore, List.cons_append, locate_cons _ _ _ _ _ hup hhere (Nat.not_lt.1 hsize), hget]
  | case7 links directory name rest hup hhere hsize here mode content hget hlast =>
    obtain rfl := Except.ok.inj h
    cases hget.symm.trans hl
  | case9 links directory name rest hup hhere hsize here target hget hlast => simp at hlast
  | case11 directory name rest hup hhere hsize here target hget hlast links ih =>
    obtain ⟨left, hleft⟩ := ih h
    refine ⟨left, fun followLast more hmore => ?_⟩
    have hrest : ((rest ++ more).isEmpty && !followLast) = false := by
      simp [hmore]
    rw [← hleft followLast more hmore, List.cons_append, locate_cons _ _ _ _ _ hup hhere (Nat.not_lt.1 hsize), hget]
    simp only [hrest, List.append_assoc]
    rfl
  | _ => cases h

/-- The system takes every name on a way that it goes. -/
theorem size_le_of_locate {t : Tree} {followLast : Bool} {links : Nat} {directory l : Location} {name : Text}
    {rest : List Text} (h : t.locate followLast links directory (name :: rest) = .ok l) (hname : Path.IsName name) :
    Utf8.size name ≤ longestName := by
  refine Nat.not_lt.1 fun hsize => ?_
  rw [locate, if_neg hname.ne_up, if_neg hname.ne_here, if_pos hsize] at h
  cases h

/-! ## From a directory to its entries -/

theorem locatePath_eq_ok_iff (t : Tree) (work : Location) (p : Path) (l : Location) :
    t.locatePath work p = .ok l ↔ admits p = .ok () ∧ t.locate true maxLinks (start work p) p.parts = .ok l := by
  unfold locatePath
  cases admits p <;> simp [bind, Except.bind]

theorem locateEntry_eq_ok_iff (t : Tree) (work : Location) (p : Path) (l : Location) :
    t.locateEntry work p = .ok l ↔ admits p = .ok () ∧ t.locate false maxLinks (start work p) p.parts = .ok l := by
  unfold locateEntry
  cases admits p <;> simp [bind, Except.bind]

theorem isDirectory_iff (t : Tree) (work : Location) (p : Path) :
    t.isDirectory work p = true ↔ ∃ l, t.locatePath work p = .ok l ∧ t.get? l = some .directory := by
  unfold isDirectory entryAt
  cases t.locatePath work p with
  | error e => simp [bind, Except.bind]
  | ok l =>
    simp only [bind, Except.bind, Except.ok.injEq, exists_eq_left']
    cases hget : t.get? l with
    | none => simp
    | some e => cases e <;> simp

theorem isFile_eq_true_iff (t : Tree) (work : Location) (p : Path) :
    t.isFile work p = .ok true ↔
      ∃ l mode content, t.locatePath work p = .ok l ∧ t.get? l = some (.file mode content) := by
  unfold isFile entryAt? entryAt
  cases t.locatePath work p with
  | error e => cases habsence : e.meansAbsence <;> simp [bind, Except.bind, habsence]
  | ok l =>
    simp only [bind, Except.bind, Except.ok.injEq]
    cases hget : t.get? l with
    | none => simp [SystemError.meansAbsence, hget]
    | some e => cases e <;> simp [Entry.isFile, hget]

/-- What leads to a directory leads to no file. -/
theorem isFile_of_isDirectory {t : Tree} {work : Location} {p : Path} (h : t.isDirectory work p = true) :
    t.isFile work p = .ok false := by
  obtain ⟨l, hl, hget⟩ := (isDirectory_iff t work p).1 h
  simp [isFile, entryAt?, entryAt, hl, hget, bind, Except.bind, Entry.isFile]

/-- A way that ends nowhere leads to nothing, or there is too long a name on it. -/
theorem reason_of_locate {t : Tree} {followLast : Bool} {links : Nat} {directory : Location} {names : List Text}
    {e : SystemError} (h : t.locate followLast links directory names = .error e) :
    e.meansAbsence = true ∨ e = .nameTooLong := by
  fun_induction locate t followLast links directory names with
  | case2 links directory rest ih => exact ih h
  | case3 links directory rest hup ih => exact ih h
  | case4 =>
    cases h
    exact .inr rfl
  | case6 links directory name rest hup hhere hsize here hget ih => exact ih h
  | case11 directory name rest hup hhere hsize here target hget hlast links ih => exact ih h
  | case1 => cases h
  | case7 => cases h
  | case9 => cases h
  | _ =>
    cases h
    exact .inl rfl

/-- A path that leads to no entry leads to nothing, or it, or a name on its way, is too long. -/
theorem reason_of_entryAt {t : Tree} {work : Location} {p : Path} {e : SystemError} (h : t.entryAt work p = .error e) :
    e.meansAbsence = true ∨ e = .nameTooLong := by
  unfold entryAt at h
  cases hlocate : t.locatePath work p with
  | ok l =>
    simp only [hlocate, bind, Except.bind] at h
    split at h
    · cases h
    · cases h
      exact .inl rfl
  | error e' =>
    simp only [hlocate, bind, Except.bind, Except.error.injEq] at h
    subst h
    unfold locatePath admits at hlocate
    split at hlocate
    · cases hlocate
      exact .inl rfl
    · split at hlocate
      · cases hlocate
        exact .inr rfl
      · exact reason_of_locate hlocate

/-- The system refuses to look at a path exactly when it, or a name on its way, is too long. -/
theorem entryAt?_eq_error_iff {t : Tree} {work : Location} {p : Path} {f : SystemFailure} :
    t.entryAt? work p = .error f ↔ t.entryAt work p = .error .nameTooLong ∧ f = ⟨p, .nameTooLong⟩ := by
  unfold entryAt?
  cases hentry : t.entryAt work p with
  | ok e => simp
  | error e =>
    rcases reason_of_entryAt hentry with hreason | rfl
    · have hne : e ≠ .nameTooLong := by rintro rfl; cases hreason
      simp [hreason, hne]
    · simp [SystemError.meansAbsence, eq_comm]

theorem refusal_of_isFile {t : Tree} {work : Location} {p : Path} {f : SystemFailure} (h : t.isFile work p = .error f) :
    f = ⟨p, .nameTooLong⟩ :=
  (entryAt?_eq_error_iff.1 (Except.map_eq_error_iff.1 h)).2

/-- A path leads to the directory at a location. -/
structure IsAt (t : Tree) (work : Location) (p : Path) (l : Location) : Prop where
  leads : t.locatePath work p = .ok l
  isDirectory : t.get? l = some .directory

section Child

variable {t : Tree} {work l : Location} {p : Path} (h : IsAt t work p l) {n : Text} (hn : Path.IsName n)
include h hn

/-- Whatever a path with more names leads to, the system takes the first of them. -/
theorem IsAt.takes {names : List Text} {m : Location} (hm : t.locatePath work (p.descend (n :: names)) = .ok m) :
    admits (p.child n) = .ok () ∧ Utf8.size n ≤ longestName := by
  obtain ⟨left, hleft⟩ := locate_append ((locatePath_eq_ok_iff t work p l).1 h.leads).2 h.isDirectory
  obtain ⟨hadmits, hlocate⟩ := (locatePath_eq_ok_iff t work _ m).1 hm
  have hway : t.locate true left l (n :: names) = .ok m := (hleft true (n :: names) (by simp)).symm.trans hlocate
  rw [Path.descend_cons] at hadmits
  exact ⟨admits_of_descend names hadmits, size_le_of_locate hway hn⟩

/-- A path to a directory leads to an entry of it when its name is added, if the system takes the path and the name. -/
theorem IsAt.locate_child (hsize : Utf8.size n ≤ longestName) :
    ∃ left, ∀ followLast, t.locate followLast maxLinks (start work (p.child n)) (p.child n).parts =
      match t.get? (l ++ [n]) with
      | none => .error .notFound
      | some (.link target) =>
        if !followLast then .ok (l ++ [n])
        else
          match left with
          | 0 => .error .tooManyLinks
          | k + 1 => t.locate followLast k (startOf target l) (Path.stepsOf target ++ [])
      | some _ => .ok (l ++ [n]) := by
  obtain ⟨left, hleft⟩ := locate_append ((locatePath_eq_ok_iff t work p l).1 h.leads).2 h.isDirectory
  refine ⟨left, fun followLast => ?_⟩
  have hstart : start work (p.child n) = start work p := rfl
  have hparts : (p.child n).parts = p.parts ++ [n] := rfl
  rw [hstart, hparts, hleft followLast [n] (by simp), locate_cons _ _ _ _ _ hn.ne_up hn.ne_here hsize]
  cases t.get? (l ++ [n]) with
  | none => rfl
  | some e =>
    cases e with
    | file mode content => rfl
    | directory =>
      simp only
      rw [locate]
    | link target => cases followLast <;> rfl

/-- Where there is nothing of a name in a directory, the path leads to nothing. -/
theorem IsAt.exists_entry {m : Location} (hm : t.locatePath work (p.child n) = .ok m) :
    ∃ e, t.get? (l ++ [n]) = some e := by
  obtain ⟨hadmits, hsize⟩ := h.takes hn hm
  obtain ⟨left, hleft⟩ := h.locate_child hn hsize
  have hway := ((locatePath_eq_ok_iff t work _ m).1 hm).2
  rw [hleft true] at hway
  cases hget : t.get? (l ++ [n]) with
  | none =>
    rw [hget] at hway
    cases hway
  | some e => exact ⟨e, rfl⟩

/-- An entry that is no link is where its path leads, if this leads anywhere. -/
theorem IsAt.eq_of_leads {e : Entry} (hget : t.get? (l ++ [n]) = some e) (he : ∀ target, e ≠ .link target) {m : Location}
    (hm : t.locatePath work (p.child n) = .ok m) : m = l ++ [n] := by
  obtain ⟨hadmits, hsize⟩ := h.takes hn hm
  obtain ⟨left, hleft⟩ := h.locate_child hn hsize
  have hway := ((locatePath_eq_ok_iff t work _ m).1 hm).2
  rw [hleft true, hget] at hway
  cases e with
  | file mode content => exact (Except.ok.inj hway).symm
  | directory => exact (Except.ok.inj hway).symm
  | link target => exact absurd rfl (he target)

/-- A directory in a directory is at its path if the system takes that path, as it does when a longer one leads anywhere. -/
theorem IsAt.child (hget : t.get? (l ++ [n]) = some .directory) {names : List Text} {m : Location}
    (hm : t.locatePath work (p.descend (n :: names)) = .ok m) : IsAt t work (p.child n) (l ++ [n]) := by
  obtain ⟨hadmits, hsize⟩ := h.takes hn hm
  obtain ⟨left, hleft⟩ := h.locate_child hn hsize
  refine ⟨(locatePath_eq_ok_iff t work _ _).2 ⟨hadmits, ?_⟩, hget⟩
  rw [hleft true, hget]

/-- The path of a directory in a directory is not taken for one of a link. -/
theorem IsAt.isLink_child_of_directory (hget : t.get? (l ++ [n]) = some .directory) :
    t.isLink work (p.child n) = false := by
  unfold isLink
  cases hentry : t.locateEntry work (p.child n) with
  | error e => rfl
  | ok m =>
    have hway := ((locateEntry_eq_ok_iff t work _ m).1 hentry).2
    have hsize : Utf8.size n ≤ longestName := by
      obtain ⟨left, hleft⟩ := locate_append ((locatePath_eq_ok_iff t work p l).1 h.leads).2 h.isDirectory
      exact size_le_of_locate ((hleft false [n] (by simp)).symm.trans hway) hn
    obtain ⟨left, hleft⟩ := h.locate_child hn hsize
    rw [hleft false, hget] at hway
    obtain rfl := Except.ok.inj hway
    simp [hget]

/-- A path to a directory that is not taken for one of a link is the path of a directory. -/
theorem IsAt.directory_of_isDirectory_child (hdirectory : t.isDirectory work (p.child n) = true)
    (hlink : t.isLink work (p.child n) = false) : t.get? (l ++ [n]) = some .directory := by
  obtain ⟨m, hm, hget⟩ := (isDirectory_iff t work _).1 hdirectory
  obtain ⟨hadmits, hsize⟩ := h.takes hn hm
  obtain ⟨left, hleft⟩ := h.locate_child hn hsize
  obtain ⟨e, he⟩ := h.exists_entry hn hm
  cases e with
  | file mode content =>
    rw [h.eq_of_leads hn he (by simp) hm, he] at hget
    cases hget
  | directory => exact he
  | link target =>
    have hentry : t.locateEntry work (p.child n) = .ok (l ++ [n]) := by
      refine (locateEntry_eq_ok_iff t work _ _).2 ⟨hadmits, ?_⟩
      rw [hleft false, he]
      rfl
    simp [isLink, hentry, he] at hlink

end Child
end Tree
end SourceTidy
