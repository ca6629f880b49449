import SourceTidy.Tree.Build
import SourceTidy.Tree.Replace

/-!
# The outline of a tree

The outline of a tree is what is left when the contents and the modes of its files are forgotten. Where a path leads,
what is there, and which names a directory holds are read off the outline alone (`locate_outline` and the statements
after it). So as long as only files are written to, every path goes on leading where it led.
-/

namespace SourceTidy

namespace Path

/-- A name that an entry of a directory can have. -/
structure IsName (n : Text) : Prop where
  ne_nil : n ≠ []
  ne_here : n ≠ here
  ne_up : n ≠ up
  slash_notMem : slash ∉ n
  null_notMem : null ∉ n

instance (n : Text) : Decidable (IsName n) :=
  decidable_of_iff (n ≠ [] ∧ n ≠ here ∧ n ≠ up ∧ slash ∉ n ∧ null ∉ n)
    ⟨fun ⟨h₁, h₂, h₃, h₄, h₅⟩ => ⟨h₁, h₂, h₃, h₄, h₅⟩, fun ⟨h₁, h₂, h₃, h₄, h₅⟩ => ⟨h₁, h₂, h₃, h₄, h₅⟩⟩

/-- A path without the single point among its names, as every path that is read from a text. -/
def IsPlain (p : Path) : Prop := here ∉ p.parts

theorem isPlain_ofText (t : Text) : (ofText t).IsPlain := by
  simp [IsPlain, ofText, namesOf]

theorem IsPlain.child {p : Path} (hp : p.IsPlain) {n : Text} (hn : n ≠ here) : (p.child n).IsPlain := by
  simp only [IsPlain, Path.child, List.mem_append, List.mem_singleton, not_or]
  exact ⟨hp, fun h => hn h.symm⟩

end Path

namespace Entry

/-- An entry with the mode and the content of a file forgotten. -/
def outline : Entry → Entry
  | file _ _ => file 0 []
  | directory => directory
  | link target => link target

@[simp] theorem isFile_outline (e : Entry) : e.outline.isFile = e.isFile := by
  cases e <;> rfl

/-- What has the outline of a directory is one. -/
@[simp] theorem outline_eq_directory (e : Entry) : e.outline = directory ↔ e = directory := by
  cases e <;> simp [outline]

/-- What has the outline of a link is that link. -/
@[simp] theorem outline_eq_link (e : Entry) (target : Text) : e.outline = link target ↔ e = link target := by
  cases e <;> simp [outline]

end Entry

namespace Tree

/-- A tree with the modes and the contents of its files forgotten. -/
def outline (t : Tree) : Tree := ⟨t.entries.map fun x => (x.1, x.2.outline)⟩

/-! ## Entries -/

theorem lookup_map_outline (es : List (Location × Entry)) (l : Location) :
    (es.map fun x => (x.1, x.2.outline)).lookup l = (es.lookup l).map Entry.outline := by
  induction es with
  | nil => rfl
  | cons x rest ih =>
    obtain ⟨m, e⟩ := x
    rw [List.map_cons, List.lookup_cons, List.lookup_cons, ih]
    cases l == m <;> rfl

@[simp] theorem get?_outline (t : Tree) (l : Location) : t.outline.get? l = (t.get? l).map Entry.outline := by
  unfold get? outline
  split
  · rfl
  · exact lookup_map_outline t.entries l

theorem get?_outline_eq_directory (t : Tree) (l : Location) :
    t.outline.get? l = some .directory ↔ t.get? l = some .directory := by
  rw [get?_outline]
  cases t.get? l <;> simp

@[simp] theorem names_outline (t : Tree) (l : Location) : t.outline.names l = t.names l := by
  rw [names, outline, List.filterMap_map]
  rfl

@[simp] theorem length_outline (t : Tree) : t.outline.entries.length = t.entries.length := by
  simp [outline]

/-! ## Where paths lead -/

/-- The next step of a way, when its name is neither the directory above nor a single point. -/
theorem locate_cons (t : Tree) (followLast : Bool) (links : Nat) (directory : Location) {name : Text} (rest : List Text)
    (hup : name ≠ Path.up) (hhere : name ≠ Path.here) (hsize : Utf8.size name ≤ longestName) :
    t.locate followLast links directory (name :: rest) =
      match t.get? (directory ++ [name]) with
      | none => .error .notFound
      | some .directory => t.locate followLast links (directory ++ [name]) rest
      | some (.file _ _) => if rest.isEmpty then .ok (directory ++ [name]) else .error .notDirectory
      | some (.link target) =>
        if rest.isEmpty && !followLast then .ok (directory ++ [name])
        else
          match links with
          | 0 => .error .tooManyLinks
          | n + 1 => t.locate followLast n (startOf target directory) (Path.stepsOf target ++ rest) := by
  rw [locate, if_neg hup, if_neg hhere]
  exact if_neg (Nat.not_lt.2 hsize)

/-- Paths lead where they lead in the outline. -/
@[simp] theorem locate_outline (t : Tree) (followLast : Bool) (links : Nat) (directory : Location) (names : List Text) :
    t.outline.locate followLast links directory names = t.locate followLast links directory names := by
  fun_induction locate t followLast links directory names with
  | case1 => simp [locate]
  | case2 links directory rest ih => rw [locate, if_pos rfl, ih]
  | case3 links directory rest hup ih => rw [locate, if_neg hup, if_pos rfl, ih]
  | case4 links directory name rest hup hhere hsize => rw [locate, if_neg hup, if_neg hhere, if_pos hsize]
  | case5 links directory name rest hup hhere hsize l hl =>
    rw [locate_cons _ _ _ _ _ hup hhere (Nat.not_lt.1 hsize), get?_outline, hl]
    rfl
  | case6 links directory name rest hup hhere hsize l hl ih =>
    rw [locate_cons _ _ _ _ _ hup hhere (Nat.not_lt.1 hsize), get?_outline, hl]
    exact ih
  | case7 links directory name rest hup hhere hsize l mode content hl hlast =>
    rw [locate_cons _ _ _ _ _ hup hhere (Nat.not_lt.1 hsize), get?_outline, hl]
    exact if_pos hlast
  | case8 links directory name rest hup hhere hsize l mode content hl hlast =>
    rw [locate_cons _ _ _ _ _ hup hhere (Nat.not_lt.1 hsize), get?_outline, hl]
    exact if_neg hlast
  | case9 links directory name rest hup hhere hsize l target hl hlast =>
    rw [locate_cons _ _ _ _ _ hup hhere (Nat.not_lt.1 hsize), get?_outline, hl]
    exact if_pos hlast
  | case10 directory name rest hup hhere hsize l target hl hlast =>
    rw [locate_cons _ _ _ _ _ hup hhere (Nat.not_lt.1 hsize), get?_outline, hl]
    exact if_neg hlast
  | case11 directory name rest hup hhere hsize l target hl hlast n ih =>
    rw [locate_cons _ _ _ _ _ hup hhere (Nat.not_lt.1 hsize), get?_outline, hl]
    exact (if_neg hlast).trans ih

@[simp] theorem locatePath_outline (t : Tree) (work : Location) (p : Path) :
    t.outline.locatePath work p = t.locatePath work p := by
  simp [locatePath]

@[simp] theorem locateEntry_outline (t : Tree) (work : Location) (p : Path) :
    t.outline.locateEntry work p = t.locateEntry work p := by
  simp [locateEntry]

/-- What is at a path in the outline is the outline of what is there. -/
@[simp] theorem entryAt_outline (t : Tree) (work : Location) (p : Path) :
    t.outline.entryAt work p = (t.entryAt work p).map Entry.outline := by
  simp only [entryAt, locatePath_outline, get?_outline]
  cases t.locatePath work p with
  | error e => rfl
  | ok l =>
    simp only [bind, Except.bind]
    cases t.get? l <;> rfl

@[simp] theorem isFile_outline (t : Tree) (work : Location) (p : Path) : t.outline.isFile work p = t.isFile work p := by
  simp only [isFile, entryAt?, entryAt_outline]
  cases t.entryAt work p with
  | error e => rfl
  | ok e => cases e <;> rfl

@[simp] theorem isDirectory_outline (t : Tree) (work : Location) (p : Path) :
    t.outline.isDirectory work p = t.isDirectory work p := by
  simp only [isDirectory, entryAt_outline]
  cases t.entryAt work p with
  | error e => rfl
  | ok e => cases e <;> rfl

@[simp] theorem isLink_outline (t : Tree) (work : Location) (p : Path) : t.outline.isLink work p = t.isLink work p := by
  simp only [isLink, locateEntry_outline, get?_outline]
  cases t.locateEntry work p with
  | error e => rfl
  | ok l =>
    simp only
    cases t.get? l with
    | none => rfl
    | some e => cases e <;> rfl

/-- A path that can be read leads to a file, and a file can be read at every path that leads to it. -/
theorem read_eq_ok_iff (t : Tree) (work : Location) (p : Path) (bytes : Bytes) :
    t.read work p = .ok bytes ↔
      ∃ l mode, t.locatePath work p = .ok l ∧ t.get? l = some (.file mode bytes) := by
  unfold read entryAt
  cases t.locatePath work p with
  | error e => simp [bind, Except.bind]
  | ok l =>
    simp only [bind, Except.bind]
    cases hl : t.get? l with
    | none => simp [hl]
    | some e => cases e <;> simp [hl]

end Tree
end SourceTidy
