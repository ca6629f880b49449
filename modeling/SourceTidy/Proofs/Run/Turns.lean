import SourceTidy.Proofs.Run.Commit
import SourceTidy.Proofs.Run.Visiting
import SourceTidy.Proofs.Tree.Replace

/-!
# A run takes the files in turn

A walk reads the tree while a run writes to it. Writing replaces what files hold and nothing else, so the walk comes to the
files that a scan finds before the run, and the run is one turn after the other: the file is announced, processed, and
announced as processed. `Job.processed` says what processing can come to; the verdict and the events of a run are sums over
its turns. All of this is about texts that have bytes, since one without them stops the run.
-/

namespace SourceTidy.Run

/-! ## Processing a file -/

namespace Job

/-- The text that is to be written back: what a pass makes of the content of a file, if that is something else and fixes are
written. -/
def committed? (j : Job) (r : Record) (w : World) : Option Text :=
  match w.tree.read j.work r.path with
  | .error _ => none
  | .ok bytes =>
    if (j.pass r w (Utf8.decode bytes)).content = Utf8.decode bytes ∨ j.readOnly = true then none
    else some (j.pass r w (Utf8.decode bytes)).content

/-- A pass of tasks that remove nothing adds to the world what it reports and records. -/
theorem pass_world (j : Job) (hk : ∀ t ∈ j.tasks, t.KeepsTree) (r : Record) (w : World) (content : Text) :
    ∃ fs ss, (j.pass r w content).world = w.add fs ss :=
  ⟨_, _, Pass.foldl_world ⟨r.relative, j.readOnly⟩ _ (fun t ht => hk t (List.mem_filter.1 ht).1) ⟨w, content, false⟩⟩

/-- What the processing of a file can come to when the tasks remove nothing. -/
inductive Processed (j : Job) (r : Record) (w : World) : Except Unwritable (World × Result) → Prop where
  /-- Nothing is to be written back. -/
  | kept (fs : List Finding) (ss : List Sighting) (ok : Bool) (hnone : j.committed? r w = none) :
    Processed j r w (.ok (w.add fs ss, ⟨ok, false⟩))
  /-- What is to be written back has no bytes. -/
  | unencodable (fs : List Finding) (ss : List Sighting) {text : Text} {e : Utf8.EncodeError}
    (hsome : j.committed? r w = some text) (hbytes : Utf8.encode text = .error e) :
    Processed j r w (.error ⟨w.add fs ss, e⟩)
  /-- Writing is refused. -/
  | unwritten (fs : List Finding) (ss : List Sighting) {text : Text} (hsome : j.committed? r w = some text) :
    Processed j r w (.ok (w.add fs ss, ⟨false, false⟩))
  /-- The bytes are put at the place where the path leads, with the mode of the file there. -/
  | written (fs : List Finding) (ss : List Sighting) (ok : Bool) {text : Text} {bytes old : Bytes} {l : Location}
    {mode : Nat} (hsome : j.committed? r w = some text) (hbytes : Utf8.encode text = .ok bytes)
    (hlocate : w.tree.locatePath j.work r.path = .ok l) (hget : w.tree.get? l = some (.file mode old)) :
    Processed j r w (.ok ({ w.add fs ss with tree := w.tree.put l (.file mode bytes) }, ⟨ok, true⟩))

/-- The cases of `Processed` are all that there are. -/
theorem processed (j : Job) (hk : ∀ t ∈ j.tasks, t.KeepsTree) (r : Record) (hr : r.path.IsPlain) (w : World)
    (ht : w.tree.WellFormed) : Processed j r w (j.process r w) := by
  cases hread : w.tree.read j.work r.path with
  | error e =>
    have hnone : j.committed? r w = none := by
      simp only [committed?, hread]
    rw [j.process_of_unread r w hread, World.report_eq_add]
    exact .kept _ _ false hnone
  | ok bytes =>
    obtain ⟨fs, ss, hworld⟩ := j.pass_world hk r w (Utf8.decode bytes)
    by_cases hkept : (j.pass r w (Utf8.decode bytes)).content = Utf8.decode bytes ∨ j.readOnly = true
    · have hnone : j.committed? r w = none := by
        simp only [committed?, hread]
        exact if_pos hkept
      rw [j.process_of_kept r w hread hkept, hworld]
      exact .kept fs ss _ hnone
    · have hsome : j.committed? r w = some (j.pass r w (Utf8.decode bytes)).content := by
        simp only [committed?, hread]
        exact if_neg hkept
      rw [not_or, Bool.not_eq_true] at hkept
      have hwrite := ht.write_of_read hr hread (j.pass r w (Utf8.decode bytes)).content
      rw [j.process_of_changed r w hread hkept.1 hkept.2, writeBack, hworld, World.add_tree]
      cases hbytes : Utf8.encode (j.pass r w (Utf8.decode bytes)).content with
      | error e =>
        rw [hbytes] at hwrite
        rw [hwrite]
        exact .unencodable fs ss hsome hbytes
      | ok written =>
        rw [hbytes] at hwrite
        rcases hwrite with ⟨l, mode, hlocate, hget, hwrite⟩ | ⟨e, hwrite⟩
        · rw [hwrite]
          exact .written fs ss _ hsome hbytes hlocate hget
        · have hreport : World.report { w.add fs ss with tree := w.tree } (troubleWith r "Unable to write file" e) =
              w.add (fs ++ [troubleWith r "Unable to write file" e]) ss := by
            simp [World.report, World.add, Reporter.report]
          rw [hwrite]
          simp only [hreport]
          exact .unwritten _ ss hsome

/-- A file is processed to its end if what is to be written back has bytes. -/
theorem exists_process_eq_ok (j : Job) (hk : ∀ t ∈ j.tasks, t.KeepsTree) (r : Record) (hr : r.path.IsPlain) (w : World)
    (ht : w.tree.WellFormed) (hbytes : ∀ text, j.committed? r w = some text → ∃ bytes, Utf8.encode text = .ok bytes) :
    ∃ w' result, j.process r w = .ok (w', result) := by
  have hprocessed := j.processed hk r hr w ht
  cases hprocess : j.process r w with
  | ok ended => exact ⟨ended.1, ended.2, rfl⟩
  | error e =>
    rw [hprocess] at hprocessed
    cases hprocessed with
    | unencodable fs ss hsome hnone =>
      obtain ⟨bytes, hsome⟩ := hbytes _ hsome
      rw [hsome] at hnone
      cases hnone

end Job

/-! ## Verdicts -/

/-- A verdict when some more files have been processed. -/
theorem Verdict.foldl_add (xs : List (Record × Result)) (v : Verdict) :
    xs.foldl (fun v x => v.add x.1 x.2) v =
      { success := v.success && xs.all (·.2.ok)
        files := v.files + xs.length
        failed := v.failed ++ (xs.filter (!·.2.ok)).map (·.1.relative)
        rewritten := v.rewritten ++ (xs.filter (·.2.rewritten)).map (·.1.relative) } := by
  induction xs generalizing v with
  | nil => simp
  | cons x rest ih =>
    obtain ⟨r, ⟨ok, rewritten⟩⟩ := x
    rw [List.foldl_cons, ih]
    cases ok <;> cases rewritten <;> simp [Verdict.add, Nat.add_assoc, Nat.add_comm 1]

namespace Plan

variable (p : Plan) (root : Path)

/-! ## Turns -/

/-- How the file of a turn is processed; one that stops the run is not fine. -/
def result (turn : Path × State) : Result :=
  match p.job.process (.ofPath root turn.1) turn.2.world with
  | .ok (_, result) => result
  | .error _ => ⟨false, false⟩

/-- Every text that is to be written back in a turn of a run has bytes. -/
def CommitsBytes (w : World) : Prop :=
  ∀ found, p.walk.scan w.tree root = some found → ∀ x ∈ p.turns root found.files { world := w }, ∀ text,
    p.job.committed? (.ofPath root x.1) x.2.world = some text → ∃ bytes, Utf8.encode text = .ok bytes

/-- The verdict and the events after turns that all end. -/
theorem foldl_settled_of_process (hhooks : p.hooks = {}) (files : List Path) (s : State)
    (h : ∀ x ∈ p.turns root files s, ∃ w', p.job.process (.ofPath root x.1) x.2.world = .ok (w', p.result root x)) :
    (files.foldl (fun s f => p.settled root f s) s).verdict =
        (p.turns root files s).foldl (fun v x => v.add (.ofPath root x.1) (p.result root x)) s.verdict ∧
      (files.foldl (fun s f => p.settled root f s) s).events =
        s.events ++ (p.turns root files s).flatMap fun x =>
          [.before (x.1.relativeTo root) x.2.world, .process (x.1.relativeTo root) x.2.world,
            .after (x.1.relativeTo root) (p.result root x).ok (p.settled root x.1 x.2).world] := by
  induction files generalizing s with
  | nil => simp [turns, turnsBy]
  | cons path rest ih =>
    rw [turns_cons, List.forall_mem_cons] at h
    obtain ⟨⟨w', hprocess⟩, hrest⟩ := h
    obtain ⟨hverdict, hevents⟩ := ih _ hrest
    have hsettled := settled_of_process root hhooks hprocess
    rw [List.foldl_cons, hverdict, hevents, turns_cons, List.foldl_cons, List.flatMap_cons, ← List.append_assoc, hsettled]
    exact ⟨rfl, rfl⟩

/-- A turn leaves the outline of the tree as it was. -/
theorem keepsOutline (hhooks : p.hooks = {}) (hk : ∀ t ∈ p.tasks, t.KeepsTree) : KeepsOutline (p.visit root) := by
  intro path s hpath ht
  have hprocessed := p.job.processed hk (.ofPath root path) hpath s.world ht
  cases hprocess : p.job.process (.ofPath root path) s.world with
  | ok ended =>
    rw [hprocess] at hprocessed
    rw [settledBy_of_ok (visit_of_process root hhooks hprocess)]
    cases hprocessed with
    | kept => rfl
    | unwritten => rfl
    | written fs ss ok hsome hbytes hlocate hget => exact Tree.outline_put hget
  | error e =>
    rw [hprocess] at hprocessed
    rw [settledBy, visit_of_unwritable root hhooks hprocess]
    cases hprocessed with
    | unencodable => rfl

/-! ## Runs -/

section Whole

variable {w : World} (hhooks : p.hooks = {}) (hk : ∀ t ∈ p.tasks, t.KeepsTree) (ht : w.tree.WellFormed)
  (hroot : root.IsPlain)
  (hexists : w.tree.isFile p.walk.work root = .ok true ∨ w.tree.isDirectory p.walk.work root = true)
  (hbytes : p.CommitsBytes root w)
include hhooks hk ht hroot hexists hbytes

/-- A run is the turns of the files that a scan finds before it, and each turn ends. -/
theorem run_eq_turns :
    ∃ found, p.walk.scan w.tree root = some found ∧
      p.run root w = found.ending (found.files.foldl (fun s f => p.settled root f s) { world := w }) ∧
      ∀ x ∈ p.turns root found.files { world := w }, x.1.IsPlain ∧ x.2.world.tree.WellFormed ∧
        ∃ w', p.job.process (.ofPath root x.1) x.2.world = .ok (w', p.result root x) := by
  have hkeeps := p.keepsOutline root hhooks hk
  obtain ⟨found, hscan, hplain, hrun⟩ := hkeeps.run_eq_follow p.walk hroot ht hexists
  have hprocess : ∀ x ∈ p.turns root found.files { world := w }, x.1.IsPlain ∧ x.2.world.tree.WellFormed ∧
      ∃ w', p.job.process (.ofPath root x.1) x.2.world = .ok (w', p.result root x) := by
    intro x hx
    obtain ⟨hpath, hwf⟩ := hkeeps.of_mem_turnsBy (s := { world := w }) hplain ht x hx
    obtain ⟨w', result, hok⟩ :=
      p.job.exists_process_eq_ok hk (.ofPath root x.1) hpath x.2.world hwf (hbytes found hscan x hx)
    refine ⟨hpath, hwf, w', ?_⟩
    rw [Plan.result, hok]
  refine ⟨found, hscan, hrun.trans (follow_eq_ending fun x hx => ?_), hprocess⟩
  obtain ⟨-, -, w', hok⟩ := hprocess x hx
  exact ⟨_, visit_of_process root hhooks hok⟩

end Whole
end Plan

/-- A run whose tasks and hooks leave the tree alone, and whose texts all have bytes.

It takes the files that a scan finds before the run, in this order and each once, although it writes to the tree while the
walk goes on; and it ends as the scan does. In each turn the file is announced in the world that the turns before it have
left, processed in this very world, and announced as processed, and as fine or not, in the world that processing leaves; and
nothing else happens in the run. So the verdict counts these files, and the files that failed are those that were announced as
not fine; these and the rewritten ones are given by their relative paths and in the order of the walk. The run is a success
exactly when no file failed.

Hooks that do something to the tree have the same turns: the one before is given the tree as it is, the file is processed in
the tree that this hook leaves, and the one after is given the tree that processing leaves. -/
theorem run_takes_scanned_files_in_turn (p : Plan) (root : Path) (w : World) (hhooks : p.hooks.KeepTree)
    (hk : ∀ t ∈ p.tasks, t.KeepsTree) (ht : w.tree.WellFormed) (hroot : root.IsPlain)
    (hexists : w.tree.isFile p.walk.work root = .ok true ∨ w.tree.isDirectory p.walk.work root = true)
    (hbytes : p.CommitsBytes root w) :
    (∀ (hooks : Hooks) (path : Path) (s s' : State), Plan.visit { p with hooks } root path s = .ok s' ↔
      ∃ tree w result tree', hooks.before (.ofPath root path) s.world.tree = .ok tree ∧
        p.job.process (.ofPath root path) { s.world with tree } = .ok (w, result) ∧
        hooks.after (.ofPath root path) result.ok w.tree = .ok tree' ∧
        s' = ⟨{ w with tree := tree' }, s.verdict.add (.ofPath root path) result,
          s.events ++ [.before (path.relativeTo root) s.world, .process (path.relativeTo root) { s.world with tree },
            .after (path.relativeTo root) result.ok w]⟩) ∧
    ∃ found s, p.walk.scan w.tree root = some found ∧ p.run root w = found.ending s ∧
      let turns := p.turns root found.files { world := w }
      turns.map Prod.fst = found.files ∧
        s = found.files.foldl (fun s f => p.settled root f s) { world := w } ∧
        (∀ x ∈ turns, ∃ w', p.job.process (.ofPath root x.1) x.2.world = .ok (w', p.result root x) ∧
          p.visit root x.1 x.2 =
            .ok ⟨w', x.2.verdict.add (.ofPath root x.1) (p.result root x),
              x.2.events ++ [.before (x.1.relativeTo root) x.2.world, .process (x.1.relativeTo root) x.2.world,
                .after (x.1.relativeTo root) (p.result root x).ok w']⟩) ∧
        s.events = (turns.flatMap fun x =>
          [.before (x.1.relativeTo root) x.2.world, .process (x.1.relativeTo root) x.2.world,
            .after (x.1.relativeTo root) (p.result root x).ok (p.settled root x.1 x.2).world]) ∧
        s.verdict.files = found.files.length ∧
        s.verdict.failed = (turns.filter fun x => !(p.result root x).ok).map (·.1.relativeTo root) ∧
        s.verdict.rewritten = (turns.filter fun x => (p.result root x).rewritten).map (·.1.relativeTo root) ∧
        (s.verdict.success = true ↔ s.verdict.failed = []) := by
  have hhooks := hhooks.eq_default
  obtain ⟨found, hscan, hrun, hturns⟩ := p.run_eq_turns root hhooks hk ht hroot hexists hbytes
  have hprocess := fun x hx => (hturns x hx).2.2
  obtain ⟨hverdict, hevents⟩ := p.foldl_settled_of_process root hhooks found.files { world := w } hprocess
  have hsum := Verdict.foldl_add
    ((p.turns root found.files { world := w }).map fun x => (.ofPath root x.1, p.result root x)) {}
  rw [List.foldl_map, ← hverdict] at hsum
  have hfailed : (found.files.foldl (fun s f => p.settled root f s) { world := w }).verdict.failed =
      ((p.turns root found.files { world := w }).filter fun x => !(p.result root x).ok).map (·.1.relativeTo root) := by
    rw [hsum]
    simp [List.filter_map, Function.comp_def, Record.ofPath]
  refine ⟨fun hooks path s s' => Plan.visit_eq_ok_iff { p with hooks } root, found, _, hscan, hrun,
    p.map_fst_turns root found.files _, rfl, ?_, hevents, ?_, hfailed, ?_, ?_⟩
  · intro x hx
    obtain ⟨w', hok⟩ := hprocess x hx
    exact ⟨w', hok, Plan.visit_of_process root hhooks hok⟩
  · have hlength := congrArg List.length (p.map_fst_turns root found.files { world := w })
    rw [List.length_map] at hlength
    rw [hsum]
    simp [hlength]
  · rw [hsum]
    simp [List.filter_map, Function.comp_def, Record.ofPath]
  · rw [hfailed, hsum]
    simp

namespace TurnsWitness

/-- Adds a mark to every file. -/
def marks : Task := ⟨"marks", none, fun _ t => ⟨[], .text (t ++ [('!' : CodePoint)])⟩⟩

theorem keepsTree_marks : ∀ t ∈ [marks], t.KeepsTree := by
  simp [Task.KeepsTree, marks]

/-- A run that marks every file. -/
def plan : Plan := ⟨⟨.ofList ["*"], .ofList [], false, []⟩, [marks], false, {}⟩

/-- The root of the run. -/
def root : Path := .ofText "/r"

/-- A file, and a link to it in a directory that the walk comes to later. -/
def world : World where
  tree := ⟨[(["r"], .directory), (["r", "a.txt"], .file 0o644 [0x78]), (["r", "d"], .directory),
    (["r", "d", "l.txt"], .link "../a.txt")]⟩

/-- The files of the run. -/
def files : List Path := [root.child "a.txt", (root.child "d").child "l.txt"]

set_option maxRecDepth 4000 in
theorem scan_world : plan.walk.scan world.tree root = some ⟨files, none⟩ := by
  cbv

set_option maxRecDepth 4000 in
theorem committed_turns :
    (plan.turns root files { world := world }).map (fun x => plan.job.committed? (.ofPath root x.1) x.2.world) =
      [some (Text.ofString "x!"), some (Text.ofString "x!!")] := by
  cbv

theorem commitsBytes : plan.CommitsBytes root world := by
  intro found hfound x hx text htext
  obtain rfl : found = ⟨files, none⟩ := by
    rw [scan_world] at hfound
    exact (Option.some.inj hfound).symm
  have hmem := List.mem_map_of_mem (f := fun x => plan.job.committed? (.ofPath root x.1) x.2.world) hx
  simp only [committed_turns, htext, List.mem_cons, List.not_mem_nil, or_false, Option.some.injEq] at hmem
  rcases hmem with rfl | rfl
  · exact ⟨[0x78, 0x21], by cbv⟩
  · exact ⟨[0x78, 0x21, 0x21], by cbv⟩

end TurnsWitness

open TurnsWitness in
/-- A file is marked twice, once in its own turn and once in that of the link to it. -/
theorem run_takes_scanned_files_witness :
    plan.hooks.KeepTree ∧ (∀ t ∈ plan.tasks, t.KeepsTree) ∧ world.tree.WellFormed ∧ root.IsPlain ∧
      world.tree.isDirectory plan.walk.work root = true ∧ plan.CommitsBytes root world ∧
      ∃ s, plan.run root world = .ok s ∧ s.verdict.files = 2 ∧ (s.verdict.success = true ↔ s.verdict.failed = []) := by
  have hhooks : plan.hooks.KeepTree := Hooks.keepTree_default
  have hwf : world.tree.WellFormed := by decide +kernel
  have hroot : root.IsPlain := Path.isPlain_ofText _
  have hdirectory : world.tree.isDirectory plan.walk.work root = true := by set_option maxRecDepth 4000 in cbv
  obtain ⟨-, found, s, hscan, hrun, -, -, -, -, hfiles, -, -, hsuccess⟩ :=
    run_takes_scanned_files_in_turn plan root world hhooks keepsTree_marks hwf hroot (.inr hdirectory) commitsBytes
  obtain rfl : found = ⟨files, none⟩ := by
    rw [scan_world] at hscan
    exact (Option.some.inj hscan).symm
  exact ⟨hhooks, keepsTree_marks, hwf, hroot, hdirectory, commitsBytes, s, hrun, hfiles, hsuccess⟩

end SourceTidy.Run
