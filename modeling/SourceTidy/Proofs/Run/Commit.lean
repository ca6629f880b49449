import Mathlib
import SourceTidy.Proofs.Run.Step

/-!
# What a pass commits

Statements about the contents that the tasks of a pass are given. Up to and with the first task where something goes
wrong, every task is given what the tasks before it have made of the content; from there on the content stays, and it is
what the pass ends with. So what is written back is never the work of a task that went wrong, nor of one after it.
-/

namespace SourceTidy

namespace Run
namespace Pass

/-- The contents that tasks are given, one after the other. -/
def given (c : Task.Context) : Pass → List Task → List Text
  | _, [] => []
  | p, t :: rest => p.content :: given c (p.step c t) rest

/-- The place of the first task where something goes wrong, judged by the content that it is given. -/
def firstWrong (c : Task.Context) (p : Pass) (tasks : List Task) : Option Nat :=
  (tasks.zip (given c p tasks)).findIdx? fun (t, content) => t.goesWrong c content

/-- What is reported about a file, when each task looks at what it is given. -/
def reported (c : Task.Context) (p : Pass) (tasks : List Task) : List Finding :=
  (tasks.zip (given c p tasks)).flatMap fun (t, content) => findings c t content

/-- What is recorded, when each task looks at what it is given. -/
def recorded (c : Task.Context) (p : Pass) (tasks : List Task) : List Sighting :=
  (tasks.zip (given c p tasks)).flatMap fun (t, content) => (t.handler c content).records c

/-! ## One task at a time -/

theorem length_given (c : Task.Context) (tasks : List Task) (p : Pass) : (given c p tasks).length = tasks.length := by
  induction tasks generalizing p with
  | nil => rfl
  | cons t rest ih => simp [given, ih]

/-- Where something goes wrong first is at the first task, or is found in the pass after it. -/
theorem firstWrong_cons (c : Task.Context) (p : Pass) (t : Task) (rest : List Task) :
    firstWrong c p (t :: rest) =
      if t.goesWrong c p.content then some 0 else (firstWrong c (p.step c t) rest).map (· + 1) := by
  simp [firstWrong, given, List.findIdx?_cons]

/-- A task where nothing goes wrong hands on its answer. -/
theorem step_of_right (c : Task.Context) {p : Pass} {t : Task} (ht : t.KeepsTree) (hp : p.hasError = false)
    (hw : t.goesWrong c p.content = false) :
    (p.step c t).hasError = false ∧ (p.step c t).content = t.answer c p.content := by
  rw [step_eq c p ht]
  simp [hp, hw]

/-- A task where something goes wrong hands on the content that it was given. -/
theorem step_of_wrong (c : Task.Context) {p : Pass} {t : Task} (ht : t.KeepsTree)
    (hw : p.hasError = true ∨ t.goesWrong c p.content = true) :
    (p.step c t).hasError = true ∧ (p.step c t).content = p.content := by
  rw [step_eq c p ht]
  rcases hw with hw | hw <;> simp [hw]

/-- Tasks add to the world what they report and record about what they are given, and nothing else. -/
theorem foldl_world (c : Task.Context) (tasks : List Task) (hk : ∀ t ∈ tasks, t.KeepsTree) (p : Pass) :
    (tasks.foldl (step c) p).world = p.world.add (reported c p tasks) (recorded c p tasks) := by
  induction tasks generalizing p with
  | nil => simp [reported, recorded, given]
  | cons t rest ih =>
    have hstep : (p.step c t).world = p.world.add (findings c t p.content) ((t.handler c p.content).records c) := by
      rw [step_eq c p (hk t List.mem_cons_self)]
    rw [List.foldl_cons, ih (fun u hu => hk u (List.mem_cons_of_mem t hu)), hstep, World.add_add]
    simp [reported, recorded, given]

/-! ## After something has gone wrong -/

/-- Once something is wrong, it stays wrong, and the content stays as it is. -/
theorem foldl_of_hasError (c : Task.Context) (tasks : List Task) (hk : ∀ t ∈ tasks, t.KeepsTree) (p : Pass)
    (hp : p.hasError = true) :
    (tasks.foldl (step c) p).hasError = true ∧ (tasks.foldl (step c) p).content = p.content := by
  induction tasks generalizing p with
  | nil => exact ⟨hp, rfl⟩
  | cons t rest ih =>
    obtain ⟨he, hc⟩ := step_of_wrong c (hk t List.mem_cons_self) (Or.inl hp)
    obtain ⟨he', hc'⟩ := ih (fun u hu => hk u (List.mem_cons_of_mem t hu)) (p.step c t) he
    exact ⟨he', hc'.trans hc⟩

/-- Once something is wrong, every task is given the content as it stands. -/
theorem given_of_hasError (c : Task.Context) (tasks : List Task) (hk : ∀ t ∈ tasks, t.KeepsTree) (p : Pass)
    (hp : p.hasError = true) : given c p tasks = List.replicate tasks.length p.content := by
  induction tasks generalizing p with
  | nil => rfl
  | cons t rest ih =>
    obtain ⟨he, hc⟩ := step_of_wrong c (hk t List.mem_cons_self) (Or.inl hp)
    rw [given, ih (fun u hu => hk u (List.mem_cons_of_mem t hu)) _ he, hc]
    rfl

/-! ## A whole list of tasks -/

/-- The number of tasks that are given what those before them have made: all those before the first one where something
goes wrong. -/
def rightCount (c : Task.Context) (p : Pass) (tasks : List Task) : Nat := (firstWrong c p tasks).getD tasks.length

theorem rightCount_cons_of_wrong (c : Task.Context) {p : Pass} {t : Task} (rest : List Task)
    (hw : t.goesWrong c p.content = true) : rightCount c p (t :: rest) = 0 := by
  simp [rightCount, firstWrong_cons, hw]

theorem rightCount_cons_of_right (c : Task.Context) {p : Pass} {t : Task} (rest : List Task)
    (hw : t.goesWrong c p.content = false) :
    rightCount c p (t :: rest) = rightCount c (p.step c t) rest + 1 := by
  rw [rightCount, firstWrong_cons]
  cases h : firstWrong c (p.step c t) rest <;> simp [rightCount, h, hw]

/-- A pass in which nothing is wrong ends with what the tasks before the first wrong one have made, and it remembers
whether there was a wrong one. -/
theorem foldl_eq_answerAll (c : Task.Context) (tasks : List Task) (hk : ∀ t ∈ tasks, t.KeepsTree) (p : Pass)
    (hp : p.hasError = false) :
    (tasks.foldl (step c) p).hasError = (firstWrong c p tasks).isSome ∧
      (tasks.foldl (step c) p).content = Task.answerAll c (tasks.take (rightCount c p tasks)) p.content := by
  induction tasks generalizing p with
  | nil => exact ⟨hp, rfl⟩
  | cons t rest ih =>
    have hkr : ∀ u ∈ rest, u.KeepsTree := fun u hu => hk u (List.mem_cons_of_mem t hu)
    have ht := hk t List.mem_cons_self
    cases hw : t.goesWrong c p.content with
    | true =>
      obtain ⟨he, hc⟩ := step_of_wrong c ht (Or.inr hw)
      obtain ⟨he', hc'⟩ := foldl_of_hasError c rest hkr _ he
      rw [List.foldl_cons, rightCount_cons_of_wrong c rest hw, firstWrong_cons, if_pos hw]
      exact ⟨he', hc'.trans hc⟩
    | false =>
      obtain ⟨he, hc⟩ := step_of_right c ht hp hw
      obtain ⟨he', hc'⟩ := ih hkr _ he
      rw [List.foldl_cons, rightCount_cons_of_right c rest hw, firstWrong_cons, hw, he', hc', hc]
      simp [Task.answerAll]

/-- A task of a pass in which nothing was wrong is given what the tasks before it have made, counted up to the first
wrong one. -/
theorem getElem?_given (c : Task.Context) (tasks : List Task) (hk : ∀ t ∈ tasks, t.KeepsTree) (p : Pass)
    (hp : p.hasError = false) (i : Nat) (hi : i < tasks.length) :
    (given c p tasks)[i]? = some (Task.answerAll c (tasks.take (min i (rightCount c p tasks))) p.content) := by
  induction tasks generalizing p i with
  | nil => exact absurd hi (Nat.not_lt_zero i)
  | cons t rest ih =>
    have hkr : ∀ u ∈ rest, u.KeepsTree := fun u hu => hk u (List.mem_cons_of_mem t hu)
    have ht := hk t List.mem_cons_self
    cases i with
    | zero => simp [given, Task.answerAll]
    | succ i =>
      have hi' : i < rest.length := Nat.lt_of_succ_lt_succ hi
      rw [given, List.getElem?_cons_succ]
      cases hw : t.goesWrong c p.content with
      | true =>
        obtain ⟨he, hc⟩ := step_of_wrong c ht (Or.inr hw)
        rw [rightCount_cons_of_wrong c rest hw, given_of_hasError c rest hkr _ he, hc]
        simp [Task.answerAll, hi']
      | false =>
        obtain ⟨he, hc⟩ := step_of_right c ht hp hw
        rw [rightCount_cons_of_right c rest hw, ih hkr _ he i hi', hc, Nat.add_min_add_right, List.take_succ_cons]
        simp [Task.answerAll]

end Pass

/-- Whether what a pass has left can be written back, if it is to be written at all. -/
def Job.canWrite (j : Job) (r : Record) (given : Text) (p : Pass) : Prop :=
  p.content = given ∨ j.readOnly = true ∨ (p.world.tree.write j.work r.path p.content).2 = none

/-- A file that is read, and that can be written back, is fine exactly when nothing was wrong in its pass. -/
theorem Job.process_of_canWrite (j : Job) (r : Record) (w : World) {bytes : Bytes}
    (hread : w.tree.read j.work r.path = .ok bytes)
    (hwrite : j.canWrite r (Utf8.decode bytes) (j.pass r w (Utf8.decode bytes))) :
    ∃ w' result, j.process r w = .ok (w', result) ∧
      result.ok = !(j.pass r w (Utf8.decode bytes)).hasError := by
  by_cases hc : (j.pass r w (Utf8.decode bytes)).content = Utf8.decode bytes ∨ j.readOnly = true
  · exact ⟨_, _, j.process_of_kept r w hread hc, rfl⟩
  · rw [not_or, Bool.not_eq_true] at hc
    have hw := hwrite.resolve_left hc.1 |>.resolve_left (by simp [hc.2])
    rw [j.process_of_changed r w hread hc.1 hc.2, writeBack]
    generalize hres : (j.pass r w (Utf8.decode bytes)).world.tree.write j.work r.path
      (j.pass r w (Utf8.decode bytes)).content = res at hw
    obtain ⟨t, e⟩ := res
    cases hw
    exact ⟨_, _, rfl, rfl⟩

/-- The law of a pass over a file. Say that the tasks that look at the file are run in order on its content. If nothing
goes wrong at any of them, each is given what those before it have made of the content, and the content becomes what all
of them make. If task `e` is the first where something goes wrong, this holds up to and with `e`; every later task is
given what `e` was given, and this is what the content becomes. What is reported and recorded is what the tasks report and
record about what they are given. When the file can be written back, it is fine in the first case and not in the
second. -/
theorem pass_commits_up_to_firstWrong (j : Job) (r : Record) (w : World) (bytes : Bytes)
    (hk : ∀ t ∈ j.tasks, t.KeepsTree) (hread : w.tree.read j.work r.path = .ok bytes) :
    let c : Task.Context := ⟨r.relative, j.readOnly⟩
    let tasks := j.tasks.filter (·.looksAt r.path.name)
    let content := Utf8.decode bytes
    let start : Pass := ⟨w, content, false⟩
    let final := j.pass r w content
    (match Pass.firstWrong c start tasks with
      | none =>
        (∀ i < tasks.length, (Pass.given c start tasks)[i]? = some (Task.answerAll c (tasks.take i) content)) ∧
          final.content = Task.answerAll c tasks content
      | some e =>
        e < tasks.length ∧
          (∀ i ≤ e, (Pass.given c start tasks)[i]? = some (Task.answerAll c (tasks.take i) content)) ∧
          (∀ i, e < i → i < tasks.length → (Pass.given c start tasks)[i]? = (Pass.given c start tasks)[e]?) ∧
          final.content = Task.answerAll c (tasks.take e) content) ∧
      final.world = w.add (Pass.reported c start tasks) (Pass.recorded c start tasks) ∧
      (j.canWrite r content final →
        ∃ w' result, j.process r w = .ok (w', result) ∧
          (result.ok = true ↔ Pass.firstWrong c start tasks = none)) := by
  intro c tasks content start final
  have hkt : ∀ t ∈ tasks, t.KeepsTree := fun t ht => hk t (List.mem_filter.1 ht).1
  obtain ⟨herr, hcontent⟩ := Pass.foldl_eq_answerAll c tasks hkt start rfl
  have hgiven := Pass.getElem?_given c tasks hkt start rfl
  refine ⟨?_, Pass.foldl_world c tasks hkt start, fun hwrite => ?_⟩
  · cases he : Pass.firstWrong c start tasks with
    | none =>
      have hcount : Pass.rightCount c start tasks = tasks.length := by simp [Pass.rightCount, he]
      refine ⟨fun i hi => ?_, ?_⟩
      · rw [hgiven i hi, hcount, Nat.min_eq_left (Nat.le_of_lt hi)]
      · have := hcontent
        rwa [hcount, List.take_length] at this
    | some e =>
      have hcount : Pass.rightCount c start tasks = e := by simp [Pass.rightCount, he]
      have hlt : e < tasks.length := by
        have := (List.findIdx?_eq_some_iff_findIdx_eq.1 he).1
        rw [List.length_zip, Pass.length_given, Nat.min_self] at this
        exact this
      refine ⟨hlt, fun i hi => ?_, fun i hei hi => ?_, ?_⟩
      · rw [hgiven i (Nat.lt_of_le_of_lt hi hlt), hcount, Nat.min_eq_left hi]
      · rw [hgiven i hi, hgiven e hlt, hcount, Nat.min_eq_right (Nat.le_of_lt hei), Nat.min_self]
      · have := hcontent
        rwa [hcount] at this
  · obtain ⟨w', result, hproc, hok⟩ := j.process_of_canWrite r w hread hwrite
    refine ⟨w', result, hproc, ?_⟩
    have hfinal : final.hasError = (Pass.firstWrong c start tasks).isSome := herr
    rw [hok, hfinal]
    cases Pass.firstWrong c start tasks <;> simp

namespace CommitWitness

/-- Adds a mark to the content. -/
def marks (mark : CodePoint) : Task := ⟨"marks", none, fun _ t => ⟨[], .text (t ++ [mark])⟩⟩

/-- Reports an error, and then answers with another content. -/
def breaks : Task := ⟨"breaks", some "*.txt", fun _ _ => ⟨[.report ⟨.error, "broken", none⟩], .text "lost"⟩⟩

/-- Fails. -/
def fails : Task := ⟨"fails", some "!*.txt", fun _ _ => ⟨[], .failed (.value none)⟩⟩

/-- A job with a task that is passed over, one that goes wrong, and one after it. -/
def job : Job := ⟨[fails, marks '1', breaks, marks '2'], false, []⟩

/-- The file of the job. -/
def record : Record := ⟨.ofText "/a.txt", "a.txt"⟩

/-- A world with the file alone. -/
def world : World := { tree := ⟨[(["a.txt"], .file 0o644 [0x78])]⟩ }

theorem keepsTree_job : ∀ t ∈ job.tasks, t.KeepsTree := by
  intro t ht c content path
  simp only [job, List.mem_cons, List.not_mem_nil, or_false] at ht
  rcases ht with rfl | rfl | rfl | rfl <;> simp [fails, marks, breaks]

end CommitWitness

open CommitWitness in
/-- The second of the three tasks that look at the file goes wrong: the content ends as the first has left it, which is also
what the third is given, and it is written back although the file is not fine. -/
theorem pass_commits_witness :
    (∀ t ∈ job.tasks, t.KeepsTree) ∧ world.tree.read job.work record.path = .ok [0x78] ∧
      Pass.firstWrong ⟨record.relative, job.readOnly⟩ ⟨world, Utf8.decode [0x78], false⟩
        (job.tasks.filter (·.looksAt record.path.name)) = some 1 ∧
      (job.pass record world (Utf8.decode [0x78])).content = Text.ofString "x1" ∧
      ∃ w' result, job.process record world = .ok (w', result) ∧ result.ok = false := by
  have hread : world.tree.read job.work record.path = .ok [0x78] := by cbv
  have he : Pass.firstWrong ⟨record.relative, job.readOnly⟩ ⟨world, Utf8.decode [0x78], false⟩
      (job.tasks.filter (·.looksAt record.path.name)) = some 1 := by decide +kernel
  obtain ⟨hlaw, -, hok⟩ := pass_commits_up_to_firstWrong job record world [0x78] keepsTree_job hread
  simp only [he] at hlaw hok
  obtain ⟨w', result, hproc, hiff⟩ := hok (Or.inr (Or.inr (by cbv)))
  refine ⟨keepsTree_job, hread, he, hlaw.2.2.2.trans (by decide +kernel), w', result, hproc, ?_⟩
  simpa using hiff

end Run
end SourceTidy
