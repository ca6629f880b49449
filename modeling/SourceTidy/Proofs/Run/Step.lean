import SourceTidy.Run.File

/-!
# What one task does to a pass

A task that removes nothing is never refused anything, so that its whole effect on a pass can be read off its response:
what it reports and records is added to the world, the tree stays as it is, and its answer becomes the content unless
something is wrong with the file by then. `Pass.step_eq` says this once, and what a list of tasks does follows from it.
-/

namespace SourceTidy

namespace Task

/-- What a task answers with, and the content that it was given when it does not answer with a text. -/
def answer (c : Context) (t : Task) (content : Text) : Text :=
  match (t.handler c content).outcome with
  | .text answered => answered
  | _ => content

/-- What a task reports about its own end: that it failed, or that it answered with something that is no text. -/
def closing (t : Task) : Outcome → List Notice
  | .text _ => []
  | .nonText k => [⟨.error, Run.Pass.nonTextMessage t.name k, none⟩]
  | .failed f => [⟨.error, Run.Pass.failedMessage t.name f, none⟩]

/-- All that is reported while a task looks at a content: its own notices, and the one about its end. -/
def reports (c : Context) (t : Task) (content : Text) : List Notice :=
  (t.handler c content).notices ++ t.closing (t.handler c content).outcome

/-- Whether something goes wrong while a task looks at a content: it reports an error, or a fix that stays unwritten, or
it does not answer with a text. -/
def goesWrong (c : Context) (t : Task) (content : Text) : Bool :=
  (t.handler c content).notices.any (fun n => Run.isFatal c.readOnly n.level)
    || !(t.closing (t.handler c content).outcome).isEmpty

/-- A task that removes nothing from the tree. -/
def KeepsTree (t : Task) : Prop := ∀ c content path, Act.remove path ∉ (t.handler c content).acts

/-- What a response records. -/
def Response.records (c : Context) (r : Response) : List Run.Sighting :=
  r.acts.filterMap fun
    | .record content => some ⟨c.path, c.readOnly, content⟩
    | _ => none

/-- The answer of tasks that run one after the other, each on the answer of the one before. -/
def answerAll (c : Context) (tasks : List Task) (content : Text) : Text :=
  tasks.foldl (fun x t => t.answer c x) content

/-- Whether something goes wrong is whether anything that is reported is fatal. -/
theorem goesWrong_eq_any (c : Context) (t : Task) (content : Text) :
    t.goesWrong c content = (t.reports c content).any fun n => Run.isFatal c.readOnly n.level := by
  unfold goesWrong reports
  rw [List.any_append]
  congr 1
  cases (t.handler c content).outcome <;> simp [closing, Run.isFatal]

end Task

namespace Run

/-- A world with findings and sightings added. -/
def World.add (w : World) (findings : List Finding) (sightings : List Sighting) : World :=
  { w with reporter := ⟨w.reporter.findings ++ findings⟩, seen := w.seen ++ sightings }

@[simp] theorem World.add_tree (w : World) (fs : List Finding) (ss : List Sighting) : (w.add fs ss).tree = w.tree := rfl

@[simp] theorem World.add_findings (w : World) (fs : List Finding) (ss : List Sighting) :
    (w.add fs ss).reporter.findings = w.reporter.findings ++ fs := rfl

@[simp] theorem World.add_seen (w : World) (fs : List Finding) (ss : List Sighting) :
    (w.add fs ss).seen = w.seen ++ ss := rfl

@[simp] theorem World.add_nil (w : World) : w.add [] [] = w := by
  simp [World.add]

@[simp] theorem World.add_add (w : World) (fs fs' : List Finding) (ss ss' : List Sighting) :
    (w.add fs ss).add fs' ss' = w.add (fs ++ fs') (ss ++ ss') := by
  simp [World.add]

/-- Reporting a finding adds it. -/
theorem World.report_eq_add (w : World) (f : Finding) : w.report f = w.add [f] [] := by
  simp [World.report, World.add, Reporter.report]

namespace Pass

/-- The findings about a file while a task looks at a content. -/
def findings (c : Task.Context) (t : Task) (content : Text) : List Finding :=
  (t.reports c content).map (findingOf c)

/-- A notice adds its finding, and is remembered if it is fatal. -/
theorem notice_eq (c : Task.Context) (p : Pass) (n : Task.Notice) :
    p.notice c n = ⟨p.world.add [findingOf c n] [], p.content, p.hasError || isFatal c.readOnly n.level⟩ := by
  rw [notice, World.report_eq_add]

/-- Acts that remove nothing are all let happen: they add what they report and record. -/
theorem actAll_eq (c : Task.Context) (acts : List Task.Act) (p : Pass) (h : ∀ path, Task.Act.remove path ∉ acts)
    (outcome : Task.Outcome) :
    p.actAll c acts =
      (⟨p.world.add ((Task.Response.notices ⟨acts, outcome⟩).map (findingOf c)) (Task.Response.records c ⟨acts, outcome⟩),
        p.content,
        p.hasError || (Task.Response.notices ⟨acts, outcome⟩).any fun n => isFatal c.readOnly n.level⟩, none) := by
  induction acts generalizing p with
  | nil => simp [actAll, Task.Response.notices, Task.Response.records]
  | cons a rest ih =>
    have hrest : ∀ path, Task.Act.remove path ∉ rest := fun path hp => h path (List.mem_cons_of_mem a hp)
    cases a with
    | report n =>
      simp only [actAll, act]
      rw [ih _ hrest, notice_eq]
      simp [Task.Response.notices, Task.Response.records, Bool.or_assoc]
    | remove path => exact absurd List.mem_cons_self (h path)
    | record content =>
      simp only [actAll, act]
      rw [ih _ hrest]
      simp [Task.Response.notices, Task.Response.records, World.add]

/-- What a task that removes nothing does to a pass. -/
theorem step_eq (c : Task.Context) (p : Pass) {t : Task} (ht : t.KeepsTree) :
    p.step c t =
      ⟨p.world.add (findings c t p.content) ((t.handler c p.content).records c),
        if p.hasError || t.goesWrong c p.content then p.content else t.answer c p.content,
        p.hasError || t.goesWrong c p.content⟩ := by
  have hacts := actAll_eq c (t.handler c p.content).acts p (ht c p.content) (t.handler c p.content).outcome
  simp only [step, hacts]
  unfold findings Task.reports Task.goesWrong Task.answer
  generalize t.handler c p.content = r
  rcases r with ⟨acts, outcome⟩
  cases outcome with
  | text answered => by_cases hp : p.hasError = true <;> simp [settle, Task.closing, hp]; split <;> simp_all
  | nonText k => simp [settle, Task.closing, notice_eq, isFatal]
  | failed f => simp [settle, Task.closing, notice_eq, isFatal]

end Pass

/-! ## Processing a file -/

namespace Job

variable (j : Job) (r : Record) (w : World)

/-- A file that cannot be read is reported. -/
theorem process_of_unread {e : SystemError} (hread : w.tree.read j.work r.path = .error e) :
    j.process r w = .ok (w.report (troubleWith r "Unable to read file" e), ⟨false, false⟩) := by
  simp only [process, hread]

/-- A file whose content stays, or is not to be written, ends with its pass. -/
theorem process_of_kept {bytes : Bytes} (hread : w.tree.read j.work r.path = .ok bytes)
    (h : (j.pass r w (Utf8.decode bytes)).content = Utf8.decode bytes ∨ j.readOnly = true) :
    j.process r w =
      .ok ((j.pass r w (Utf8.decode bytes)).world, ⟨!(j.pass r w (Utf8.decode bytes)).hasError, false⟩) := by
  simp only [process, hread]
  exact if_pos (by simpa using h)

/-- A file whose content has changed is written back, if it is to be written. -/
theorem process_of_changed {bytes : Bytes} (hread : w.tree.read j.work r.path = .ok bytes)
    (h : (j.pass r w (Utf8.decode bytes)).content ≠ Utf8.decode bytes) (hro : j.readOnly = false) :
    j.process r w = j.writeBack r (j.pass r w (Utf8.decode bytes)) := by
  simp only [process, hread]
  exact if_neg (by simp [h, hro])

/-- A file whose changed content is written back ends with its pass and the tree that is left. -/
theorem process_of_written {bytes : Bytes} {p : Pass} {t : Tree} (hread : w.tree.read j.work r.path = .ok bytes)
    (hpass : j.pass r w (Utf8.decode bytes) = p) (h : p.content ≠ Utf8.decode bytes) (hro : j.readOnly = false)
    (hwrite : p.world.tree.write j.work r.path p.content = (t, none)) :
    j.process r w = .ok ({ p.world with tree := t }, ⟨!p.hasError, true⟩) := by
  subst hpass
  rw [j.process_of_changed r w hread h hro, writeBack, hwrite]

end Job
end Run
end SourceTidy
