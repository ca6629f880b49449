import SourceTidy.Proofs.Text.Strip
import SourceTidy.Proofs.Tree.Shown
import SourceTidy.Report.Finding

/-!
# Where a finding is

The line for a finding tells its place by the path that the file is shown by. What is printed of it is put together from two parts
again (`plain_located`): all before the last name, and the last name. Together they are the path, but for control characters that
no line holds.
-/

namespace SourceTidy

/-! ## Written paths -/

namespace Path

/-- Names with slashes between them are read as a path from the working directory. -/
theorem ofText_join {ns : List Text} (hne : ns ≠ []) (hns : ∀ n ∈ ns, IsName n) :
    ofText (Text.join [slash] ns) = ⟨.relative, ns⟩ := by
  have hanchor : anchorOf (Text.join [slash] ns) = .relative := by
    obtain ⟨n, rest, rfl⟩ := List.exists_cons_of_ne_nil hne
    obtain ⟨hn, -⟩ := List.forall_mem_cons.1 hns
    obtain ⟨c, n, rfl⟩ := List.exists_cons_of_ne_nil hn.ne_nil
    have hc : c ≠ slash := fun hc => hn.slash_notMem (hc ▸ List.mem_cons_self)
    have hhead : ∃ more, Text.join [slash] ((c :: n) :: rest) = c :: more := by
      cases rest with
      | nil => exact ⟨n, rfl⟩
      | cons m rest => exact ⟨_, rfl⟩
    obtain ⟨more, hmore⟩ := hhead
    rw [hmore, anchorOf, List.takeWhile_cons_of_neg (by simpa using hc)]
    rfl
  have hnames : namesOf (Text.join [slash] ns) = ns := by
    rw [namesOf, Text.split_join hne fun n hn => (hns n hn).slash_notMem, List.filter_eq_self]
    intro n hn
    simp [(hns n hn).ne_nil, (hns n hn).ne_here]
  rw [ofText, hanchor, hnames]

/-- Names with slashes between them do not end with a slash. -/
theorem getLast?_join_ne_slash {ns : List Text} (hne : ns ≠ []) (hns : ∀ n ∈ ns, IsName n) :
    (Text.join [slash] ns).getLast? ≠ some slash := by
  intro h
  rw [← List.dropLast_append_getLast hne] at h hns
  have hlast := hns _ (List.mem_append_right _ List.mem_cons_self)
  have hin : (ns.getLast hne).getLast? = some slash := by
    rw [Text.join_concat] at h
    split at h
    · exact h
    · rwa [List.getLast?_append_of_ne_nil _ hlast.ne_nil] at h
  exact hlast.slash_notMem (List.mem_of_getLast? hin)

/-- Of names with slashes between them the last one is all, or there is a slash before it and something before that. -/
theorem join_cases {ns : List Text} (hne : ns ≠ []) (hns : ∀ n ∈ ns, IsName n) :
    ∃ n, slash ∉ n ∧ ns.getLast? = some n ∧
      (Text.join [slash] ns = n ∨
        ∃ before ≠ [], before.getLast? ≠ some slash ∧ Text.join [slash] ns = before ++ slash :: n) := by
  have hlast := hns _ (List.getLast_mem hne)
  refine ⟨_, hlast.slash_notMem, List.getLast?_eq_some_getLast hne, ?_⟩
  have hjoin := Text.join_concat [slash] (ns.getLast hne) ns.dropLast
  rw [List.dropLast_append_getLast hne] at hjoin
  by_cases hfirst : ns.dropLast = []
  · rw [if_pos hfirst] at hjoin
    exact .inl hjoin
  · rw [if_neg hfirst, List.append_assoc, List.singleton_append] at hjoin
    have hnames : ∀ n ∈ ns.dropLast, IsName n := fun n hn => hns n (List.dropLast_subset ns hn)
    exact .inr ⟨_, join_ne_nil hfirst hnames, getLast?_join_ne_slash hfirst hnames, hjoin⟩

end Path

/-! ## Directory and last name -/

/-! ## What is left out -/

namespace Report.Console

/-- What is known of a console: it leaves out control characters only. -/
structure Lawful (console : Console) : Prop where
  lt_of_drops : ∀ c, console.drops c = true → c.toNat < 0x20

theorem Lawful.drops_eq_false {console : Console} (h : console.Lawful) {c : CodePoint} (hc : 0x20 ≤ c.toNat) :
    console.drops c = false := by
  rw [← Bool.not_eq_true]
  exact fun hdrops => absurd (h.lt_of_drops c hdrops) (Nat.not_lt.2 hc)

theorem lawful_usual : usual.Lawful := by
  refine ⟨fun c hc => ?_⟩
  simp only [usual, isStripped, CodePoint.within, Bool.or_eq_true, decide_eq_true_eq] at hc
  omega

/-- Control characters are left out piece by piece. -/
theorem keep_append (console : Console) (s t : Text) : console.keep (s ++ t) = console.keep s ++ console.keep t :=
  List.filter_append s t

theorem keep_eq_self_iff (console : Console) (t : Text) : console.keep t = t ↔ ∀ c ∈ t, console.drops c = false := by
  rw [keep, List.filter_eq_self]
  simp

end Report.Console

namespace Finding

theorem takeWhile_reverse_append {n : Text} (h : slash ∉ n) (rest : Text) :
    (n.reverse ++ rest).takeWhile (· != slash) = n.reverse ++ rest.takeWhile (· != slash) := by
  refine List.takeWhile_append_of_pos fun c hc => ?_
  simpa using fun heq : c = slash => h (heq ▸ List.mem_reverse.1 hc)

theorem baseName_of_notMem {n : Text} (h : slash ∉ n) : baseName n = n := by
  rw [baseName, ← List.append_nil n.reverse, takeWhile_reverse_append h]
  simp

theorem baseName_append {n : Text} (h : slash ∉ n) (d : Text) : baseName (d ++ slash :: n) = n := by
  rw [baseName, List.reverse_append, List.reverse_cons, List.append_assoc, takeWhile_reverse_append h]
  simp

theorem directoryName_of_notMem {n : Text} (h : slash ∉ n) : directoryName n = [] := by
  rw [directoryName, baseName_of_notMem h]
  simp

theorem directoryName_append {n d : Text} (h : slash ∉ n) (hne : d ≠ []) (hd : d.getLast? ≠ some slash) :
    directoryName (d ++ slash :: n) = d := by
  have hbefore : (d ++ slash :: n).take ((d ++ slash :: n).length - n.length) = d ++ [slash] := by
    have hlength : (d ++ slash :: n).length - n.length = (d ++ [slash]).length := by
      simp only [List.length_append, List.length_cons, List.length_nil]
      omega
    rw [hlength, List.append_cons d slash n, List.take_left]
  have hlast : ¬ (d.getLast hne == slash) = true := by
    rw [beq_iff_eq]
    exact fun heq => hd (heq ▸ List.getLast?_eq_some_getLast hne)
  have hall : (d ++ [slash]).all (· == slash) = false := by
    rw [List.all_eq_false]
    exact ⟨_, List.mem_append_left _ (List.getLast_mem hne), hlast⟩
  rw [directoryName, baseName_append h]
  simp only [hbefore, hall]
  rw [if_neg Bool.false_ne_true, Text.dropRightWhile_eq_rdropWhile, List.rdropWhile_concat_pos _ _ _ (by simp),
    List.rdropWhile_eq_self_iff.2 fun _ => hlast]

/-- What follows the last name in the place of a finding: the line, if there is one. -/
def lineSuffix (f : Finding) : Text :=
  match f.line with
  | none => []
  | some n => ":" ++ lineText n

theorem place_eq (f : Finding) : f.place = baseName f.path ++ f.lineSuffix := by
  unfold place lineSuffix
  cases f.line with
  | none => exact (List.append_nil _).symm
  | some n => exact List.append_assoc _ _ _

variable (console : Report.Console)

/-- The pieces of the line for a finding that say where it is: all between the tag and the gap before the message. -/
def located (f : Finding) (color : Bool) : Report.Styled := (f.styled console color).tail.dropLast.dropLast

/-- The place of a finding is printed in one piece, or with the directory in a piece before it. -/
theorem located_eq (f : Finding) (color : Bool) :
    ∃ style style', f.located console color =
      (if (directoryName f.path).isEmpty then [] else [⟨console.keep (directoryName f.path ++ [slash]), style⟩]) ++
        [⟨console.keep f.place, style'⟩] := by
  refine ⟨if color then some .directory else none, if color then some .file else none, ?_⟩
  unfold located styled
  by_cases hdirectory : directoryName f.path = []
  · simp [Report.Styled.add, hdirectory]
  · simp [Report.Styled.add, hdirectory]

omit console in
theorem le_of_mem_ofNat {n : Nat} {c : CodePoint} (h : c ∈ Text.ofNat n) : 0x20 ≤ c.toNat := by
  obtain ⟨ch, hch, rfl⟩ := List.mem_map.1 h
  rw [Nat.toList_repr] at hch
  have hdigit := Nat.isDigit_of_mem_toDigits (by decide) (by decide) hch
  have hnumber : (CodePoint.ofChar ch).toNat = ch.toNat := rfl
  have hlow : 48 ≤ ch.toNat := UInt32.le_iff_toNat_le.1 (of_decide_eq_true (Bool.and_eq_true_iff.1 hdigit).1)
  omega

variable {console} (hconsole : console.Lawful)
include hconsole

theorem keep_lineSuffix (f : Finding) : console.keep f.lineSuffix = f.lineSuffix := by
  rw [console.keep_eq_self_iff]
  unfold lineSuffix
  cases f.line with
  | none => nofun
  | some n =>
    have hsign : ∀ c ∈ Text.ofString (if n < 0 then "-" else ""), 0x20 ≤ c.toNat := by split <;> decide
    have hall : ∀ c ∈ Text.ofString ":" ++ lineText n, 0x20 ≤ c.toNat :=
      List.forall_mem_append.2 ⟨by decide, List.forall_mem_append.2 ⟨hsign, fun c hc => le_of_mem_ofNat hc⟩⟩
    exact fun c hc => hconsole.drops_eq_false (hall c hc)

/-- The place that is printed for a finding in a file that is shown by some names is these names with slashes between them,
without what the console leaves out, and the line. -/
theorem plain_located {f : Finding} {ns : List Text} (hne : ns ≠ []) (hns : ∀ n ∈ ns, Path.IsName n)
    (hpath : f.path = Text.join [Path.slash] ns) (color : Bool) :
    (f.located console color).plain = console.keep f.path ++ f.lineSuffix := by
  obtain ⟨style, style', hlocated⟩ := f.located_eq console color
  have hplace : console.keep f.place = console.keep (baseName f.path) ++ f.lineSuffix := by
    rw [place_eq, console.keep_append, keep_lineSuffix hconsole]
  rw [hlocated, hplace]
  obtain ⟨n, hn, -, hwhole | ⟨before, hbefore, hends, hwhole⟩⟩ := Path.join_cases hne hns
  · rw [hpath, hwhole, directoryName_of_notMem hn, baseName_of_notMem hn]
    simp [Report.Styled.plain]
  · have hpath : f.path = before ++ slash :: n := hpath.trans hwhole
    have hparts : console.keep (before ++ slash :: n) =
        console.keep (before ++ [slash]) ++ console.keep n := by
      rw [List.append_cons before slash n, console.keep_append]
    rw [hpath, directoryName_append hn hbefore hends, baseName_append hn, hparts]
    simp [Report.Styled.plain, hbefore]

omit hconsole in
theorem baseName_join {ns : List Text} (hne : ns ≠ []) (hns : ∀ n ∈ ns, Path.IsName n) :
    ns.getLast? = some (baseName (Text.join [Path.slash] ns)) := by
  obtain ⟨n, hn, hlast, hwhole | ⟨before, -, -, hwhole⟩⟩ := Path.join_cases hne hns
  · rw [hwhole, baseName_of_notMem hn, hlast]
  · rw [hwhole, hlast]
    exact congrArg some (baseName_append hn before).symm

end Finding

/-! ## Files of a walk -/

namespace Walk

/-- Whether the path that a file of a walk is shown by says which file below the root it is, and is what is printed of it. -/
structure Identifies (w : Walk) (console : Report.Console) (root p : Path) (shown : Text) : Prop where
  ne_nil : shown ≠ []
  anchor : Path.anchorOf shown = .relative
  append : root.append (Path.ofText shown) = p
  name : (Path.ofText shown).name = p.name
  baseName : Finding.baseName shown = p.name
  admits : w.admits p.name = true
  located : ∀ (f : Finding) (color : Bool), f.path = shown →
    (f.located console color).plain = console.keep shown ++ f.lineSuffix ∧
      ((f.located console color).plain = shown ++ f.lineSuffix ↔ ∀ c ∈ shown, console.drops c = false)

/-- The masks are asked about the last name of a candidate, and accept it. -/
theorem admits_of_mem_candidates (w : Walk) {t : Tree} {depth : Nat} {directory p : Path}
    (h : p ∈ w.candidates t depth directory) : w.admits p.name = true := by
  induction depth generalizing directory with
  | zero => cases h
  | succ depth ih =>
    rw [candidates, List.mem_append, List.mem_map, List.mem_flatMap] at h
    rcases h with ⟨n, hn, rfl⟩ | ⟨n, -, hp⟩
    · have hfilter := (List.mem_filter.1 (List.mem_mergeSort.1 hn)).2
      rw [Path.name_child]
      exact (Bool.and_eq_true_iff.1 hfilter).2
    · exact ih hp

theorem identifies_relativeTo (w : Walk) {console : Report.Console} (hconsole : console.Lawful) (root : Path)
    {ns : List Text} (hne : ns ≠ []) (hns : ∀ n ∈ ns, Path.IsName n)
    (hadmits : w.admits (root.descend ns).name = true) :
    w.Identifies console root (root.descend ns) ((root.descend ns).relativeTo root) := by
  have hlast : (root.descend ns).name = ns.getLast?.getD [] := by
    rw [Path.name, Path.descend, List.getLast?_append_of_ne_nil _ hne]
  rw [root.relativeTo_descend hne hns]
  have hpath := Path.ofText_join hne hns
  refine ⟨Path.join_ne_nil hne hns, congrArg Path.anchor hpath, by rw [hpath]; rfl, by rw [hpath, hlast]; rfl, ?_, hadmits, ?_⟩
  · rw [hlast, Finding.baseName_join hne hns]
    rfl
  · intro f color hf
    have hplain := Finding.plain_located hconsole hne hns hf color
    rw [hf] at hplain
    refine ⟨hplain, ?_⟩
    rw [hplain, List.append_cancel_right_eq]
    exact console.keep_eq_self_iff _

/-- The paths that the files of a walk are shown by tell the files below the root of the walk apart, and each of them says which
file it is. -/
theorem relative_names_identify_files (w : Walk) {console : Report.Console} (hconsole : console.Lawful) {t : Tree}
    (ht : t.WellFormed) {written : Text} (hroot : t.isDirectory w.work (Path.ofText written) = true) :
    ∃ found, w.scan t (Path.ofText written) = some found ∧
      (∀ p ∈ found.files, w.Identifies console (Path.ofText written) p (p.relativeTo (Path.ofText written))) ∧
      (found.files.map (·.relativeTo (Path.ofText written))).Nodup := by
  have hscan := w.scan_eq_list? ht (Path.isPlain_ofText written)
  have hlist : w.list? t (Path.ofText written) = some (w.listWithin t (maxDepth t) (Path.ofText written)) := by
    rw [list?, Tree.isFile_of_isDirectory hroot]
    exact if_pos hroot
  refine ⟨_, hscan.trans hlist, fun p hp => ?_, w.nodup_relativeTo ht hlist⟩
  have hcandidate := (w.listWithin_sublist t _ _).subset hp
  obtain ⟨ns, hne, hns, rfl⟩ := w.exists_names_of_mem_candidates ht hcandidate
  exact w.identifies_relativeTo hconsole _ hne hns (w.admits_of_mem_candidates hcandidate)

open DiscoveryWitness in
/-- A file in a directory below the root, and one that is a link. -/
theorem relative_names_identify_witness :
    Report.Console.usual.Lawful ∧ tree.WellFormed ∧ tree.isDirectory walk.work (.ofText "/r") = true ∧
      ∃ found, walk.scan tree (.ofText "/r") = some found ∧
        found.files.map (·.relativeTo (.ofText "/r")) = ["b.txt", "z.txt", "d/c.txt"] ∧
        walk.Identifies .usual (.ofText "/r") ((root.child "d").child "c.txt") "d/c.txt" := by
  have hwf : tree.WellFormed := by decide +kernel
  have hroot : tree.isDirectory walk.work (.ofText "/r") = true := by cbv
  obtain ⟨found, hscan, hidentifies, -⟩ := relative_names_identify_files walk Report.Console.lawful_usual hwf hroot
  have hfound : found = ⟨[root.child "b.txt", root.child "z.txt", (root.child "d").child "c.txt"], none⟩ :=
    Option.some.inj (hscan.symm.trans scan_tree)
  subst hfound
  refine ⟨Report.Console.lawful_usual, hwf, hroot, _, hscan, by decide +kernel, ?_⟩
  have hfile := hidentifies ((root.child "d").child "c.txt") (by simp)
  have hshown : ((root.child "d").child "c.txt").relativeTo (.ofText "/r") = Text.ofString "d/c.txt" := by decide +kernel
  rwa [hshown] at hfile

namespace LocationWitness

/-- A directory with a file whose name has a carriage return in it. -/
def tree : Tree := ⟨[(["r"], .directory), (["r", "a\rb.txt"], .file 0o644 [])]⟩

end LocationWitness

open LocationWitness in
/-- A carriage return in the name of a file is not printed. -/
theorem located_drops_return :
    tree.WellFormed ∧ tree.isDirectory [] (.ofText "/r") = true ∧
      DiscoveryWitness.walk.scan tree (.ofText "/r") = some ⟨[(Path.ofText "/r").child "a\rb.txt"], none⟩ ∧
      ((Path.ofText "/r").child "a\rb.txt").relativeTo (.ofText "/r") = Text.ofString "a\rb.txt" ∧
      (Finding.located .usual ⟨.fix, "a\rb.txt", "2 bytes of whitespaces", none, true⟩ false).plain = Text.ofString "ab.txt" ∧
      Text.ofString "ab.txt" ≠ Text.ofString "a\rb.txt" := by
  refine ⟨by decide +kernel, by cbv, by cbv, by decide +kernel, by decide +kernel, by decide⟩

end Walk
end SourceTidy
