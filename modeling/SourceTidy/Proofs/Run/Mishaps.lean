import SourceTidy.Run.Mishaps
import SourceTidy.Proofs.Run.Commit
import SourceTidy.Proofs.Tree.Faults

/-!
# What mishaps do to a pass

Without mishaps, files are processed as `Job.process` says (`Plan.runUnder_calm`). Whatever goes wrong, a pass of tasks that
remove nothing does no more to the world than adding findings and sightings (`Job.adds_passUnder`), and it depends on the
tree alone, not on what has been reported before (`Job.processUnder_eq_after`). The pass stops the run when a task fails, or
answers with no text, and the run cannot say so (`Pass.Unreported`).
-/

namespace SourceTidy.Run

/-! ## Without mishaps -/

namespace Pass

theorem actUnder_calm (c : Task.Context) (p : Pass) (a : Task.Act) :
    p.actUnder {} c a =
      match p.act c a with
      | .ok p' => (p', none)
      | .error f => (p, some (.system (some f.message))) := by
  cases a <;> rfl

theorem actAllUnder_calm (c : Task.Context) (acts : List Task.Act) (p : Pass) :
    p.actAllUnder {} c acts =
      ((p.actAll c acts).1, (p.actAll c acts).2.map fun f => .system (some f.message)) := by
  induction acts generalizing p with
  | nil => rfl
  | cons a rest ih =>
    rw [actAllUnder, actUnder_calm, actAll]
    cases p.act c a with
    | ok p' => exact ih p'
    | error f => rfl

theorem settleUnder_calm (c : Task.Context) (name : Text) (p : Pass) (o : Task.Outcome) :
    settleUnder {} c name p o = .ok (settle c name p o) := by
  cases o <;> rfl

theorem stepUnder_calm (c : Task.Context) (p : Pass) (t : Task) : p.stepUnder {} c t = .ok (p.step c t) := by
  simp only [stepUnder, step, actAllUnder_calm, settleUnder_calm]
  obtain ⟨q, refusal⟩ := p.actAll c (t.handler c p.content).acts
  cases refusal <;> rfl

theorem runUnder_calm (c : Task.Context) (name : Text) (tasks : List Task) (p : Pass) :
    runUnder {} c name tasks p = .ok (run c name tasks p) := by
  unfold runUnder run
  induction tasks.filter (·.looksAt name) generalizing p with
  | nil => rfl
  | cons t rest ih =>
    rw [List.foldlM_cons, stepUnder_calm, List.foldl_cons]
    exact ih (p.step c t)

end Pass

namespace Job

theorem writeBackUnder_calm (j : Job) (r : Record) (p : Pass) :
    j.writeBackUnder {} r p = (j.writeBack r p).mapError Unwritable.halt := by
  simp only [writeBackUnder, writeBack, Tree.writeUnder_noFaults]
  obtain ⟨t, e⟩ := p.world.tree.write j.work r.path p.content
  cases e with
  | none => rfl
  | some e => cases e <;> rfl

theorem passUnder_calm (j : Job) (r : Record) (w : World) (content : Text) :
    j.passUnder {} r w content = .ok (j.pass r w content) :=
  Pass.runUnder_calm _ _ _ _

theorem processUnder_calm (j : Job) (r : Record) (w : World) :
    j.processUnder {} r w = (j.process r w).mapError Unwritable.halt := by
  simp only [processUnder, process, readUnder, passUnder_calm, writeBackUnder_calm]
  cases w.tree.read j.work r.path with
  | error e => rfl
  | ok bytes =>
    simp only [bind, Except.bind]
    rw [apply_ite (Except.mapError Unwritable.halt)]
    rfl

end Job

/-- A run that meets with no mishap. -/
theorem Plan.runUnder_calm (p : Plan) : p.runUnder {} = p.run := by
  have hprocess : p.job.processUnder {} = fun r w => (p.job.process r w).mapError Unwritable.halt := by
    funext r w
    exact p.job.processUnder_calm r w
  funext root w
  rw [runUnder, run, visitUnder, visit, hprocess]

/-! ## What has been reported before does not matter -/

/-- A world, and what has been added to another one after it. -/
def World.followedBy (w w' : World) : World :=
  ⟨w'.tree, ⟨w.reporter.findings ++ w'.reporter.findings⟩, w.seen ++ w'.seen⟩

@[simp] theorem World.followedBy_tree (w w' : World) : (w.followedBy w').tree = w'.tree := rfl

theorem World.followedBy_report (w w' : World) (f : Finding) :
    (w.followedBy w').report f = w.followedBy (w'.report f) := by
  simp [World.followedBy, World.report, Reporter.report]

/-- Every world is one in which nothing has been reported yet, after itself. -/
theorem World.followedBy_tree_alone (w : World) : w.followedBy { tree := w.tree } = w := by
  simp [World.followedBy]

/-- What stops a run, with what was in a world before it. -/
def Halt.after (w : World) (h : Halt) : Halt := { h with world := w.followedBy h.world }

/-- Whether a finding can be printed has nothing to do with what has been reported before. -/
theorem World.reportUnder_followedBy (m : Mishaps) (w w' : World) (f : Finding) :
    (w.followedBy w').reportUnder m f = ((w'.reportUnder m f).map w.followedBy).mapError (Halt.after w) := by
  simp only [reportUnder, followedBy_report]
  cases m.unprinted f <;> rfl

namespace Pass

variable (m : Mishaps) (c : Task.Context) (w : World)

/-- A pass with what was in a world before it. -/
def after (p : Pass) : Pass := { p with world := w.followedBy p.world }

@[simp] theorem after_world (p : Pass) : (p.after w).world = w.followedBy p.world := rfl

@[simp] theorem after_content (p : Pass) : (p.after w).content = p.content := rfl

@[simp] theorem after_hasError (p : Pass) : (p.after w).hasError = p.hasError := rfl

/-- A pass, or what stops a run in it, with what was in a world before it. -/
def afterAll : Except Halt Pass → Except Halt Pass
  | .ok p => .ok (p.after w)
  | .error h => .error (h.after w)

theorem notice_after (p : Pass) (n : Task.Notice) : (p.after w).notice c n = (p.notice c n).after w := by
  simp only [notice, after, World.followedBy_report]

theorem actUnder_after (p : Pass) (a : Task.Act) :
    (p.after w).actUnder m c a = ((p.actUnder m c a).1.after w, (p.actUnder m c a).2) := by
  cases a with
  | report n =>
    simp only [actUnder, notice_after]
    cases m.unprinted (findingOf c n) with
    | none => rfl
    | some fault => simp [after, World.followedBy_report]
  | remove path =>
    simp only [actUnder, act, after_world, World.followedBy_tree]
    cases p.world.tree.remove [] (Path.ofText path) <;> rfl
  | record content => simp [actUnder, act, after, World.followedBy]

theorem actAllUnder_after (acts : List Task.Act) (p : Pass) :
    (p.after w).actAllUnder m c acts = ((p.actAllUnder m c acts).1.after w, (p.actAllUnder m c acts).2) := by
  induction acts generalizing p with
  | nil => rfl
  | cons a rest ih =>
    rw [actAllUnder, actUnder_after, actAllUnder]
    obtain ⟨p', refusal⟩ := p.actUnder m c a
    cases refusal with
    | none => exact ih p'
    | some f => rfl

theorem complainUnder_after (p : Pass) (message : Text) :
    (p.after w).complainUnder m c message = afterAll w (p.complainUnder m c message) := by
  simp only [complainUnder, after_world, World.reportUnder_followedBy, notice_after]
  cases p.world.reportUnder m (findingOf c ⟨.error, message, none⟩) <;> rfl

theorem settleUnder_after (name : Text) (p : Pass) (o : Task.Outcome) :
    settleUnder m c name (p.after w) o = afterAll w (settleUnder m c name p o) := by
  cases o with
  | text t =>
    by_cases h : p.hasError = true <;> simp [settleUnder, settle, afterAll, after, h]
  | nonText k => exact complainUnder_after m c w p _
  | failed f =>
    simp only [settleUnder]
    cases m.wordless f with
    | none => exact complainUnder_after m c w p _
    | some fault => rfl

theorem stepUnder_after (p : Pass) (t : Task) : (p.after w).stepUnder m c t = afterAll w (p.stepUnder m c t) := by
  simp only [stepUnder, after_content, actAllUnder_after]
  obtain ⟨q, refusal⟩ := p.actAllUnder m c (t.handler c p.content).acts
  cases refusal <;> exact settleUnder_after m c w t.name q _

theorem runUnder_after (name : Text) (tasks : List Task) (p : Pass) :
    runUnder m c name tasks (p.after w) = afterAll w (runUnder m c name tasks p) := by
  unfold runUnder
  induction tasks.filter (·.looksAt name) generalizing p with
  | nil => rfl
  | cons t rest ih =>
    rw [List.foldlM_cons, List.foldlM_cons, stepUnder_after]
    cases p.stepUnder m c t with
    | ok q => exact ih q
    | error h => rfl

end Pass

namespace Job

variable (j : Job) (m : Mishaps) (r : Record) (w : World)

/-- The end of the processing of a file, with what was in a world before it. -/
def after : Except Halt (World × Result) → Except Halt (World × Result)
  | .ok (w', result) => .ok (w.followedBy w', result)
  | .error h => .error (h.after w)

theorem writeBackUnder_after (p : Pass) : j.writeBackUnder m r (p.after w) = after w (j.writeBackUnder m r p) := by
  simp only [writeBackUnder, Pass.after_world, Pass.after_content, World.followedBy_tree]
  obtain ⟨t, e⟩ := p.world.tree.writeUnder (m.faults r) j.work r.path p.content
  cases e with
  | none => rfl
  | some e =>
    cases e with
    | encode e => rfl
    | system e =>
      have hreport := World.reportUnder_followedBy m w { p.world with tree := t } (troubleWith r "Unable to write file" e)
      simp only [World.followedBy] at hreport ⊢
      rw [hreport]
      cases World.reportUnder m { p.world with tree := t } (troubleWith r "Unable to write file" e) <;> rfl

/-- A file is processed in a world as it is in one that has the same tree and in which nothing has been reported. -/
theorem processUnder_eq_after : j.processUnder m r w = after w (j.processUnder m r { tree := w.tree }) := by
  have hpass (content : Text) :
      j.passUnder m r w content = Pass.afterAll w (j.passUnder m r { tree := w.tree } content) := by
    rw [passUnder, passUnder, ← Pass.runUnder_after, Pass.after, World.followedBy_tree_alone]
  rw [processUnder, processUnder]
  cases j.readUnder m r w.tree with
  | error e =>
    have hreport := World.reportUnder_followedBy m w { tree := w.tree } (troubleWith r "Unable to read file" e)
    rw [World.followedBy_tree_alone] at hreport
    simp only [hreport]
    cases World.reportUnder m { tree := w.tree } (troubleWith r "Unable to read file" e) <;> rfl
  | ok bytes =>
    simp only [hpass, bind, Except.bind]
    cases j.passUnder m r { tree := w.tree } (Utf8.decode bytes) with
    | error h => rfl
    | ok p =>
      simp only [Pass.afterAll, Pass.after_content, writeBackUnder_after]
      rw [apply_ite (after w)]
      rfl

end Job

/-! ## Tasks that remove nothing -/

/-- A world with something reported or recorded after another. -/
def World.Adds (w w' : World) : Prop := ∃ fs ss, w' = w.add fs ss

theorem World.Adds.refl (w : World) : w.Adds w := ⟨[], [], by simp⟩

theorem World.Adds.trans {w₁ w₂ w₃ : World} (h : w₁.Adds w₂) (h' : w₂.Adds w₃) : w₁.Adds w₃ := by
  obtain ⟨fs, ss, rfl⟩ := h
  obtain ⟨fs', ss', rfl⟩ := h'
  exact ⟨fs ++ fs', ss ++ ss', by rw [World.add_add]⟩

theorem World.Adds.tree {w w' : World} (h : w.Adds w') : w'.tree = w.tree := by
  obtain ⟨fs, ss, rfl⟩ := h
  rfl

theorem World.Adds.findings {w w' : World} (h : w.Adds w') : w.reporter.findings <+: w'.reporter.findings := by
  obtain ⟨fs, ss, rfl⟩ := h
  exact List.prefix_append _ _

theorem World.adds_report (w : World) (f : Finding) : w.Adds (w.report f) := ⟨[f], [], w.report_eq_add f⟩

/-- The world that something leaves, also when it stops the run. -/
def worldLeft {α : Type} (world : α → World) : Except Halt α → World
  | .ok a => world a
  | .error h => h.world

namespace Pass

variable {m : Mishaps} {c : Task.Context}

theorem adds_actAllUnder (acts : List Task.Act) (h : ∀ path, Task.Act.remove path ∉ acts) (p : Pass) :
    p.world.Adds (p.actAllUnder m c acts).1.world := by
  induction acts generalizing p with
  | nil => exact .refl _
  | cons a rest ih =>
    have hact : p.world.Adds (p.actUnder m c a).1.world := by
      cases a with
      | report n =>
        simp only [actUnder]
        cases m.unprinted (findingOf c n) <;> exact World.adds_report _ _
      | remove path => exact absurd List.mem_cons_self (h path)
      | record content => exact ⟨[], [⟨c.path, c.readOnly, content⟩], by simp [actUnder, act, World.add]⟩
    rw [actAllUnder]
    split
    · rename_i p' hsame
      rw [hsame] at hact
      exact hact.trans (ih (fun path hp => h path (List.mem_cons_of_mem a hp)) p')
    · rename_i p' f hsame
      rwa [hsame] at hact

theorem adds_complainUnder (p : Pass) (message : Text) :
    p.world.Adds (worldLeft Pass.world (p.complainUnder m c message)) := by
  simp only [complainUnder, World.reportUnder]
  cases m.unprinted (findingOf c ⟨.error, message, none⟩) <;> exact World.adds_report _ _

theorem adds_settleUnder (name : Text) (p : Pass) (o : Task.Outcome) :
    p.world.Adds (worldLeft Pass.world (settleUnder m c name p o)) := by
  cases o with
  | text t =>
    simp only [settleUnder, settle, worldLeft]
    split <;> exact .refl _
  | nonText k => exact p.adds_complainUnder _
  | failed f =>
    simp only [settleUnder]
    cases m.wordless f with
    | none => exact p.adds_complainUnder _
    | some fault => exact .refl _

theorem adds_stepUnder (p : Pass) {t : Task} (ht : t.KeepsTree) :
    p.world.Adds (worldLeft Pass.world (p.stepUnder m c t)) := by
  have hacts := adds_actAllUnder (m := m) (c := c) (t.handler c p.content).acts (ht c p.content) p
  simp only [stepUnder]
  generalize p.actAllUnder m c (t.handler c p.content).acts = ended at hacts
  obtain ⟨p', refusal⟩ := ended
  cases refusal <;> exact hacts.trans (adds_settleUnder _ p' _)

theorem adds_foldlM (tasks : List Task) (hk : ∀ t ∈ tasks, t.KeepsTree) (p : Pass) :
    p.world.Adds (worldLeft Pass.world (tasks.foldlM (stepUnder m c) p)) := by
  induction tasks generalizing p with
  | nil => exact .refl _
  | cons t rest ih =>
    have hstep := adds_stepUnder (m := m) (c := c) p (hk t List.mem_cons_self)
    rw [List.foldlM_cons]
    cases hq : p.stepUnder m c t with
    | error h =>
      rw [hq] at hstep
      exact hstep
    | ok q =>
      rw [hq] at hstep
      exact hstep.trans (ih (fun u hu => hk u (List.mem_cons_of_mem t hu)) q)

end Pass

/-- A pass of tasks that remove nothing adds to the world, also when it stops the run. -/
theorem Job.adds_passUnder (j : Job) (m : Mishaps) (hk : ∀ t ∈ j.tasks, t.KeepsTree) (r : Record) (w : World)
    (content : Text) : w.Adds (worldLeft Pass.world (j.passUnder m r w content)) :=
  Pass.adds_foldlM _ (fun t ht => hk t (List.mem_filter.1 ht).1) ⟨w, content, false⟩

/-! ## What stops a pass -/

namespace Pass

/-- How a task ends for a run: an act that fails is a failure of the task. -/
def outcomeUnder (m : Mishaps) (c : Task.Context) (p : Pass) (t : Task) : Task.Outcome :=
  match (p.actAllUnder m c (t.handler c p.content).acts).2 with
  | none => (t.handler c p.content).outcome
  | some f => .failed f

/-- A run cannot say how a task has ended: the failure has no words, or the finding for it is not printed. -/
inductive Unreported (m : Mishaps) (c : Task.Context) (name : Text) : Task.Outcome → Prop where
  | wordless {f : Task.Fault} (h : m.wordless f ≠ none) : Unreported m c name (.failed f)
  | failed {f : Task.Fault} (h : m.unprinted (findingOf c ⟨.error, failedMessage name f, none⟩) ≠ none) :
    Unreported m c name (.failed f)
  | nonText {k : Task.NonText} (h : m.unprinted (findingOf c ⟨.error, nonTextMessage name k, none⟩) ≠ none) :
    Unreported m c name (.nonText k)

variable {m : Mishaps} {c : Task.Context}

theorem complainUnder_eq_ok_iff (p : Pass) (message : Text) :
    (∃ q, p.complainUnder m c message = .ok q) ↔ m.unprinted (findingOf c ⟨.error, message, none⟩) = none := by
  simp only [complainUnder, World.reportUnder]
  cases m.unprinted (findingOf c ⟨.error, message, none⟩) <;> simp [Except.map]

/-- A task does not stop the run if the run can say how it has ended. -/
theorem stepUnder_eq_ok_iff (p : Pass) (t : Task) :
    (∃ q, p.stepUnder m c t = .ok q) ↔ ¬ Unreported m c t.name (p.outcomeUnder m c t) := by
  have hstep : p.stepUnder m c t =
      settleUnder m c t.name (p.actAllUnder m c (t.handler c p.content).acts).1 (p.outcomeUnder m c t) := by
    simp only [stepUnder, outcomeUnder]
    generalize p.actAllUnder m c (t.handler c p.content).acts = ended
    obtain ⟨q, refusal⟩ := ended
    cases refusal <;> rfl
  rw [hstep]
  cases p.outcomeUnder m c t with
  | text t => exact ⟨fun _ => nofun, fun _ => ⟨_, rfl⟩⟩
  | nonText k =>
    rw [settleUnder, complainUnder_eq_ok_iff]
    constructor
    · rintro hprinted ⟨⟩
      contradiction
    · intro h
      by_contra hne
      exact h (.nonText hne)
  | failed f =>
    rw [settleUnder]
    cases hwords : m.wordless f with
    | some fault =>
      refine ⟨fun ⟨q, hq⟩ => ?_, fun h => absurd (.wordless (by simp [hwords])) h⟩
      cases hq
    | none =>
      simp only [complainUnder_eq_ok_iff]
      constructor
      · rintro hprinted (hw | hf)
        · exact hw hwords
        · exact hf hprinted
      · intro h
        by_contra hne
        exact h (.failed hne)

/-- Tasks do not stop the run if the run can say of each how it has ended. -/
theorem foldlM_stepUnder_eq_ok_iff (tasks : List Task) (p : Pass) :
    (∃ q, tasks.foldlM (stepUnder m c) p = .ok q) ↔
      ∀ before t rest q, tasks = before ++ t :: rest → before.foldlM (stepUnder m c) p = .ok q →
        ¬ Unreported m c t.name (q.outcomeUnder m c t) := by
  induction tasks generalizing p with
  | nil => exact ⟨fun _ before t rest q h => by simp at h, fun _ => ⟨p, rfl⟩⟩
  | cons t rest ih =>
    have hfirst := p.stepUnder_eq_ok_iff (m := m) (c := c) t
    rw [List.foldlM_cons]
    constructor
    · rintro ⟨q, hq⟩ before u after q' hsplit hbefore
      cases hstep : p.stepUnder m c t with
      | error h =>
        rw [hstep] at hq
        cases hq
      | ok p₁ =>
        rw [hstep] at hq
        cases before with
        | nil =>
          cases hsplit
          cases hbefore
          exact hfirst.1 ⟨p₁, hstep⟩
        | cons t' before =>
          rw [List.cons_append] at hsplit
          obtain ⟨rfl, hrest⟩ := List.cons.inj hsplit
          rw [List.foldlM_cons, hstep] at hbefore
          exact (ih p₁).1 ⟨q, hq⟩ before u after q' hrest hbefore
    · intro h
      obtain ⟨p₁, hstep⟩ := hfirst.2 (h [] t rest p rfl rfl)
      obtain ⟨q, hq⟩ := (ih p₁).2 fun before u after q' hsplit hbefore =>
        h (t :: before) u after q' (by rw [hsplit, List.cons_append]) (by rw [List.foldlM_cons, hstep]; exact hbefore)
      exact ⟨q, by rw [hstep]; exact hq⟩

end Pass
end SourceTidy.Run
