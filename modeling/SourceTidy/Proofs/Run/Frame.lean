import SourceTidy.Proofs.Run.Turns

/-!
# What a run changes in a tree

A run writes by putting bytes at the place where the path of a file leads, and it does nothing else to the tree
(`Job.tree_of_process`). So of the places in a tree, those that are not rewritten are as they were. A place that is
rewritten, perhaps through several links, was a file before, keeps its mode, and holds the bytes of the last text written to
it.
-/

namespace SourceTidy

/-! ## Rewrites of a tree -/

namespace Tree

/-- The last of some rewrites whose path is resolved to a location: the text that is written. -/
def lastTo (t : Tree) (work : Location) (rewrites : List (Path × Text)) (l : Location) : Option Text :=
  (rewrites.reverse.find? fun x => t.real work x.1 = l).map Prod.snd

theorem lastTo_append (t : Tree) (work : Location) (xs ys : List (Path × Text)) (l : Location) :
    t.lastTo work (xs ++ ys) l = (t.lastTo work ys l).or (t.lastTo work xs l) := by
  rw [lastTo, List.reverse_append, List.find?_append, Option.map_or]
  rfl

theorem lastTo_singleton (t : Tree) (work : Location) (p : Path) (text : Text) (l : Location) :
    t.lastTo work [(p, text)] l = if t.real work p = l then some text else none := by
  by_cases hl : t.real work p = l <;> simp [lastTo, hl]

/-- A location is as it was before; or if a text was written to it, it was a file, has the mode that it had, and holds the
bytes of the text. -/
def LeavesAt (before after : Tree) (l : Location) : Option Text → Prop
  | none => after.get? l = before.get? l
  | some text => ∃ mode old bytes, before.get? l = some (.file mode old) ∧ Utf8.encode text = .ok bytes ∧
      after.get? l = some (.file mode bytes)

/-- What is written first at a location does not matter if something is written there again. -/
theorem LeavesAt.trans {t u v : Tree} {l : Location} {a b : Option Text} (h : LeavesAt t u l a) (h' : LeavesAt u v l b) :
    LeavesAt t v l (b.or a) := by
  cases b with
  | none =>
    have hsame : v.get? l = u.get? l := h'
    cases a with
    | none => exact hsame.trans h
    | some text =>
      obtain ⟨mode, old, bytes, hold, hbytes, hnew⟩ := h
      exact ⟨mode, old, bytes, hold, hbytes, hsame.trans hnew⟩
  | some text =>
    obtain ⟨mode, old, bytes, hold, hbytes, hnew⟩ := h'
    cases a with
    | none => exact ⟨mode, old, bytes, h.symm.trans hold, hbytes, hnew⟩
    | some text' =>
      obtain ⟨mode', old', bytes', hold', hbytes', hnew'⟩ := h
      rw [hnew', Option.some.injEq, Entry.file.injEq] at hold
      obtain ⟨rfl, rfl⟩ := hold
      exact ⟨mode', old', bytes, hold', hbytes, hnew⟩

end Tree

namespace Run

/-! ## Processing a file -/

namespace Job

/-- The text that is written back when a file is processed. -/
def rewrite? (j : Job) (r : Record) (w : World) : Option Text :=
  match j.process r w with
  | .ok (_, ⟨_, true⟩) => j.committed? r w
  | _ => none

/-- Nothing is written back unless fixes are written. -/
theorem rewrite?_of_readOnly {j : Job} (hreadOnly : j.readOnly = true) (r : Record) (w : World) :
    j.rewrite? r w = none := by
  have hnone : j.committed? r w = none := by
    unfold committed?
    split
    · rfl
    · exact if_pos (.inr hreadOnly)
  unfold rewrite?
  split
  · exact hnone
  · rfl

/-- What processing does to the tree: a text that is written back is put at the place where the path leads, and otherwise
the tree stays as it is. -/
theorem tree_of_process (j : Job) (hk : ∀ t ∈ j.tasks, t.KeepsTree) (r : Record) (hr : r.path.IsPlain) (w : World)
    (ht : w.tree.WellFormed) {w' : World} {result : Result} (h : j.process r w = .ok (w', result)) :
    match j.rewrite? r w with
    | none => result.rewritten = false ∧ w'.tree = w.tree
    | some text => result.rewritten = true ∧ ∃ l mode old bytes, w.tree.locatePath j.work r.path = .ok l ∧
        w.tree.get? l = some (.file mode old) ∧ Utf8.encode text = .ok bytes ∧
        w'.tree = w.tree.put l (.file mode bytes) := by
  have hprocessed := j.processed hk r hr w ht
  unfold rewrite?
  rw [h] at hprocessed ⊢
  cases hprocessed with
  | kept fs ss ok hnone => exact ⟨rfl, rfl⟩
  | unwritten fs ss hsome => exact ⟨rfl, rfl⟩
  | written fs ss ok hsome hbytes hlocate hget =>
    simp only [hsome, true_and]
    exact ⟨_, _, _, _, hlocate, hget, hbytes, rfl⟩

end Job

/-! ## Runs -/

namespace Plan

variable (p : Plan) (root : Path)

/-- The paths that are rewritten in some turns, each with the text that is written there. -/
def rewrites (turns : List (Path × State)) : List (Path × Text) :=
  turns.filterMap fun x => (p.job.rewrite? (.ofPath root x.1) x.2.world).map (x.1, ·)

/-- What rewriting has made of a state: the tree has the entries that it had, each as its last rewrite leaves it, and the
paths are noted in the verdict. -/
structure Rewritten (t : Tree) (rewrites : List (Path × Text)) (s s' : State) : Prop where
  idle : rewrites = [] → s'.world.tree = s.world.tree
  outline : s'.world.tree.outline = s.world.tree.outline
  verdict : s'.verdict.rewritten = s.verdict.rewritten ++ rewrites.map (·.1.relativeTo root)
  leavesAt : ∀ l, s.world.tree.LeavesAt s'.world.tree l (t.lastTo p.walk.work rewrites l)

theorem Rewritten.refl (t : Tree) (s : State) : p.Rewritten root t [] s s :=
  ⟨fun _ => rfl, rfl, by simp, fun _ => rfl⟩

variable {p root}

theorem Rewritten.trans {t : Tree} {xs ys : List (Path × Text)} {s₁ s₂ s₃ : State} (h : p.Rewritten root t xs s₁ s₂)
    (h' : p.Rewritten root t ys s₂ s₃) : p.Rewritten root t (xs ++ ys) s₁ s₃ where
  idle hnil := by
    obtain ⟨hxs, hys⟩ := List.append_eq_nil_iff.1 hnil
    exact (h'.idle hys).trans (h.idle hxs)
  outline := h'.outline.trans h.outline
  verdict := by rw [h'.verdict, h.verdict, List.map_append, List.append_assoc]
  leavesAt l := by
    rw [Tree.lastTo_append]
    exact (h.leavesAt l).trans (h'.leavesAt l)

variable (p root)

section Turns

variable (hhooks : p.hooks = {}) (hk : ∀ t ∈ p.tasks, t.KeepsTree) {t : Tree}
include hhooks hk

/-- What the turn of a file rewrites. Where the path leads is seen from the outline, so it is where it led before the
run. -/
theorem rewritten_of_turn {path : Path} (hpath : path.IsPlain) {s : State} (ht : s.world.tree.WellFormed)
    (houtline : s.world.tree.outline = t.outline) {w' : World} {result : Result}
    (h : p.job.process (.ofPath root path) s.world = .ok (w', result)) :
    p.Rewritten root t (p.rewrites root [(path, s)]) s (p.settled root path s) := by
  have htree := p.job.tree_of_process hk (.ofPath root path) hpath s.world ht h
  rw [Plan.settled_of_process root hhooks h, rewrites, List.filterMap_cons, List.filterMap_nil]
  cases hrewrite : p.job.rewrite? (.ofPath root path) s.world with
  | none =>
    rw [hrewrite] at htree
    obtain ⟨hrewritten, htree⟩ := htree
    refine ⟨fun _ => htree, congrArg Tree.outline htree, ?_, ?_⟩
    · simp [Verdict.add, hrewritten]
    · intro l
      exact congrArg (Tree.get? · l) htree
  | some text =>
    rw [hrewrite] at htree
    obtain ⟨hrewritten, l, mode, old, bytes, hlocate, hget, hbytes, htree⟩ := htree
    have hreal : t.real p.walk.work path = l := by
      refine Tree.real_of_locatePath hpath ?_
      rw [← Tree.locatePath_outline, ← houtline, Tree.locatePath_outline]
      exact hlocate
    have hl : l ≠ [] := by
      rintro rfl
      cases hget
    refine ⟨fun hnil => (List.cons_ne_nil _ _ hnil).elim, ?_, ?_, ?_⟩
    · simp only [htree]
      exact Tree.outline_put hget
    · simp [Verdict.add, hrewritten, Record.ofPath]
    · intro m
      simp only [Option.map_some, Tree.lastTo_singleton, hreal, htree]
      by_cases hm : l = m
      · subst hm
        rw [if_pos rfl]
        exact ⟨mode, old, bytes, hget, hbytes, by rw [Tree.get?_put _ hl, if_pos rfl]⟩
      · rw [if_neg hm]
        exact (Tree.get?_put _ hl m _).trans (if_neg fun h => hm h.symm)

/-- What turns that all end rewrite. -/
theorem rewritten_of_turns (files : List Path) (s : State) (houtline : s.world.tree.outline = t.outline)
    (hturns : ∀ x ∈ p.turns root files s, x.1.IsPlain ∧ x.2.world.tree.WellFormed ∧
      ∃ w', p.job.process (.ofPath root x.1) x.2.world = .ok (w', p.result root x)) :
    p.Rewritten root t (p.rewrites root (p.turns root files s)) s (files.foldl (fun s f => p.settled root f s) s) := by
  induction files generalizing s with
  | nil => exact .refl p root t s
  | cons path rest ih =>
    rw [turns_cons, List.forall_mem_cons] at hturns
    obtain ⟨⟨hpath, hwf, w', hprocess⟩, hrest⟩ := hturns
    have hturn := p.rewritten_of_turn root hhooks hk hpath hwf houtline hprocess
    have hafter := ih (p.settled root path s) (hturn.outline.trans houtline) hrest
    have hboth := hturn.trans hafter
    rw [rewrites, rewrites, ← List.filterMap_append] at hboth
    exact hboth

end Turns

/-- A run without fixes rewrites nothing. -/
theorem rewrites_of_readOnly (hreadOnly : p.readOnly = true) (turns : List (Path × State)) :
    p.rewrites root turns = [] := by
  refine List.filterMap_eq_nil_iff.2 fun x _ => ?_
  have hjob : p.job.readOnly = true := hreadOnly
  rw [Job.rewrite?_of_readOnly hjob]
  rfl

/-- What is rewritten in some turns are files of these turns. -/
theorem mem_of_mem_rewrites {files : List Path} {s : State} {x : Path × Text}
    (hx : x ∈ p.rewrites root (p.turns root files s)) : x.1 ∈ files := by
  obtain ⟨turn, hturn, hsome⟩ := List.mem_filterMap.1 hx
  obtain ⟨text, -, rfl⟩ := Option.map_eq_some_iff.1 hsome
  rw [← p.map_fst_turns root files s]
  exact List.mem_map_of_mem hturn

end Plan

/-- What is left of a tree after a run whose tasks and hooks leave it alone, and whose texts all have bytes.

A run that leaves all fixes unwritten leaves the tree as it was, and has no file rewritten. In any run the entries are at the
places where they were. The files that are listed as rewritten are files of the walk, and a place changes only if the path of
such a file is resolved to it: it was a file, keeps its mode, and holds the bytes of the text that was last written to it. So
directories and links stay, and so do the modes of files. -/
theorem run_changes_rewritten_files_only (p : Plan) (root : Path) (w : World) (hhooks : p.hooks.KeepTree)
    (hk : ∀ t ∈ p.tasks, t.KeepsTree) (ht : w.tree.WellFormed) (hroot : root.IsPlain)
    (hexists : w.tree.isFile p.walk.work root = .ok true ∨ w.tree.isDirectory p.walk.work root = true)
    (hbytes : p.CommitsBytes root w) :
    ∃ found s, p.walk.scan w.tree root = some found ∧ p.run root w = found.ending s ∧
      (p.readOnly = true → s.world.tree = w.tree ∧ s.verdict.rewritten = []) ∧
      s.world.tree.locations = w.tree.locations ∧
      let rewrites := p.rewrites root (p.turns root found.files { world := w })
      s.verdict.rewritten = rewrites.map (·.1.relativeTo root) ∧ (∀ x ∈ rewrites, x.1 ∈ found.files) ∧
        ∀ l, match w.tree.lastTo p.walk.work rewrites l with
          | none => s.world.tree.get? l = w.tree.get? l
          | some text => ∃ mode old bytes, w.tree.get? l = some (.file mode old) ∧ Utf8.encode text = .ok bytes ∧
              s.world.tree.get? l = some (.file mode bytes) := by
  have hhooks := hhooks.eq_default
  obtain ⟨found, hscan, hrun, hturns⟩ := p.run_eq_turns root hhooks hk ht hroot hexists hbytes
  have hrewritten := p.rewritten_of_turns root hhooks hk (t := w.tree) found.files { world := w } rfl hturns
  have hverdict := hrewritten.verdict
  rw [List.nil_append] at hverdict
  refine ⟨found, _, hscan, hrun, ?_, ?_, hverdict, fun x hx => p.mem_of_mem_rewrites root hx, ?_⟩
  · intro hreadOnly
    have hnil := p.rewrites_of_readOnly root hreadOnly (p.turns root found.files { world := w })
    exact ⟨hrewritten.idle hnil, by rw [hverdict, hnil, List.map_nil]⟩
  · rw [← Tree.locations_outline, hrewritten.outline, Tree.locations_outline]
  · intro l
    have hleaves := hrewritten.leavesAt l
    cases hlast : w.tree.lastTo p.walk.work (p.rewrites root (p.turns root found.files { world := w })) l with
    | none =>
      rw [hlast] at hleaves
      exact hleaves
    | some text =>
      rw [hlast] at hleaves
      exact hleaves

namespace TurnsWitness

set_option maxRecDepth 4000 in
theorem rewrites_turns :
    plan.rewrites root (plan.turns root files { world := world }) =
      files.zip [Text.ofString "x!", Text.ofString "x!!"] := by
  cbv

set_option maxRecDepth 4000 in
theorem lastTo_target :
    world.tree.lastTo plan.walk.work (files.zip [Text.ofString "x!", Text.ofString "x!!"]) ["r", "a.txt"] =
      some (Text.ofString "x!!") := by
  cbv

set_option maxRecDepth 4000 in
theorem lastTo_link :
    world.tree.lastTo plan.walk.work (files.zip [Text.ofString "x!", Text.ofString "x!!"]) ["r", "d", "l.txt"] = none := by
  cbv

end TurnsWitness

open TurnsWitness in
/-- A file is rewritten twice, the second time through a link to it: it holds what was written last, and the link stays. -/
theorem run_changes_target_of_link :
    plan.hooks.KeepTree ∧ (∀ t ∈ plan.tasks, t.KeepsTree) ∧ world.tree.WellFormed ∧ root.IsPlain ∧
      world.tree.isDirectory plan.walk.work root = true ∧ plan.CommitsBytes root world ∧
      ∃ s, plan.run root world = .ok s ∧ s.verdict.rewritten = [Text.ofString "a.txt", Text.ofString "d/l.txt"] ∧
        s.world.tree.get? ["r", "a.txt"] = some (.file 0o644 [0x78, 0x21, 0x21]) ∧
        s.world.tree.get? ["r", "d", "l.txt"] = some (.link "../a.txt") := by
  have hhooks : plan.hooks.KeepTree := Hooks.keepTree_default
  have hwf : world.tree.WellFormed := by decide +kernel
  have hroot : root.IsPlain := Path.isPlain_ofText _
  have hdirectory : world.tree.isDirectory plan.walk.work root = true := by set_option maxRecDepth 4000 in cbv
  obtain ⟨found, s, hscan, hrun, -, -, hrewritten, -, hleaves⟩ := run_changes_rewritten_files_only plan root world hhooks
    keepsTree_marks hwf hroot (.inr hdirectory) commitsBytes
  obtain rfl : found = ⟨files, none⟩ := by
    rw [scan_world] at hscan
    exact (Option.some.inj hscan).symm
  simp only [rewrites_turns] at hrewritten hleaves
  have htarget := hleaves ["r", "a.txt"]
  have hlink := hleaves ["r", "d", "l.txt"]
  rw [lastTo_target] at htarget
  rw [lastTo_link] at hlink
  obtain ⟨mode, old, bytes, hget, hbytes, hnew⟩ := htarget
  have hold : world.tree.get? ["r", "a.txt"] = some (.file 0o644 [0x78]) := by cbv
  have hencode : Utf8.encode (Text.ofString "x!!") = .ok [0x78, 0x21, 0x21] := by cbv
  rw [hold, Option.some.injEq, Entry.file.injEq] at hget
  rw [hencode, Except.ok.injEq] at hbytes
  obtain ⟨rfl, -⟩ := hget
  subst hbytes
  exact ⟨hhooks, keepsTree_marks, hwf, hroot, hdirectory, commitsBytes, s, hrun, hrewritten.trans (by cbv), hnew,
    hlink.trans (by cbv)⟩

end SourceTidy.Run
