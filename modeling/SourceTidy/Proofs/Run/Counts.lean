import SourceTidy.Proofs.Run.Visiting
import SourceTidy.Proofs.Run.Step
import SourceTidy.Proofs.Tree.Visits

/-!
# Every finding counts

What is reported in a run comes from its tasks, or from the run itself when a task fails, answers with something that is no
text, or a file cannot be read or written. `Plan.incidents` lists all this from what tasks answer and what the tree does, and
looks at no report and no verdict. Every step adds a finding for each of its incidents, of the level of the incident
(`World.Gains`), and a file is fine exactly when none of them is fatal. So both the counts and the verdict of a run are read
off one list, whatever tasks and hooks do to the tree.
-/

namespace SourceTidy.Run

/-! ## Incidents -/

/-- Something that is to be reported in a run. -/
inductive Incident where
  /-- A task reports something. -/
  | report (level : Level)
  /-- A task fails. -/
  | raised
  /-- A task answers with something that is no text. -/
  | nonText
  /-- A file cannot be read. -/
  | unread
  /-- A file cannot be written. -/
  | unwritten
  deriving DecidableEq, Repr

namespace Incident

/-- The level that an incident is reported with. -/
def level : Incident → Level
  | report l => l
  | _ => .error

/-- Whether an incident means that something is wrong with the file. -/
def isFatal (readOnly : Bool) (i : Incident) : Bool := Run.isFatal readOnly i.level

/-- The incidents of a level are the reports of tasks with that level, and all others if it is that of errors. -/
theorem countP_level (is : List Incident) (l : Level) :
    is.countP (fun i => i.level = l) =
      is.count (.report l) +
        if l = .error then is.count .raised + is.count .nonText + is.count .unread + is.count .unwritten else 0 := by
  induction is with
  | nil => simp
  | cons i rest ih =>
    rw [List.countP_cons, ih]
    cases i with
    | report l' =>
      by_cases hl : l' = l
      · simp [level, hl]
        omega
      · simp [level, hl]
    | _ =>
      by_cases hl : l = .error
      · simp [level, hl]
        omega
      · simp [level, hl, eq_comm]

/-- Something is wrong when an error is reported, or a fix that stays unwritten. -/
theorem any_isFatal_eq_false_iff (readOnly : Bool) (is : List Incident) :
    is.any (isFatal readOnly) = false ↔
      is.countP (fun i => i.level = .error) = 0 ∧ (readOnly = true → is.countP (fun i => i.level = .fix) = 0) := by
  have hfatal (l : Level) : Run.isFatal readOnly l = true ↔ l = .error ∨ readOnly = true ∧ l = .fix := by
    cases l <;> simp [Run.isFatal]
  simp only [List.any_eq_false, List.countP_eq_zero, decide_eq_true_eq, isFatal, hfatal, not_or, not_and]
  constructor
  · intro h
    exact ⟨fun i hi => (h i hi).1, fun hreadOnly i hi => (h i hi).2 hreadOnly⟩
  · rintro ⟨herror, hfix⟩ i hi
    exact ⟨herror i hi, fun hreadOnly => hfix hreadOnly i hi⟩

end Incident

/-! ## Worlds -/

/-- A world that goes on from another: findings have been added, one for each of some incidents, with their levels. -/
def World.Gains (is : List Incident) (w w' : World) : Prop :=
  ∃ fs, w'.reporter.findings = w.reporter.findings ++ fs ∧ fs.map (·.level) = is.map Incident.level

namespace World

theorem Gains.of_same {w w' : World} (h : w'.reporter.findings = w.reporter.findings) : w.Gains [] w' :=
  ⟨[], by rw [h, List.append_nil], rfl⟩

theorem Gains.trans {is is' : List Incident} {w₁ w₂ w₃ : World} (h : w₁.Gains is w₂) (h' : w₂.Gains is' w₃) :
    w₁.Gains (is ++ is') w₃ := by
  obtain ⟨fs, hfs, hlevels⟩ := h
  obtain ⟨fs', hfs', hlevels'⟩ := h'
  exact ⟨fs ++ fs', by rw [hfs', hfs, List.append_assoc], by rw [List.map_append, List.map_append, hlevels, hlevels']⟩

theorem gains_report {i : Incident} {f : Finding} (h : f.level = i.level) (w : World) : w.Gains [i] (w.report f) :=
  ⟨[f], rfl, by rw [List.map_singleton, List.map_singleton, h]⟩

/-- The count of a level grows by the number of incidents of that level. -/
theorem Gains.count {is : List Incident} {w w' : World} (h : w.Gains is w') (l : Level) :
    w'.reporter.count l = w.reporter.count l + is.countP fun i => i.level = l := by
  obtain ⟨fs, hfs, hlevels⟩ := h
  have hcount : fs.countP (fun f => f.level = l) = is.countP fun i => i.level = l := by
    have := congrArg (List.countP fun l' => decide (l' = l)) hlevels
    simpa only [List.countP_map, Function.comp_def] using this
  rw [Reporter.count, hfs, List.countP_append, hcount, Reporter.count]

end World

/-! ## Tasks -/

namespace Pass

/-- The acts of a task that come to pass: those before the first that is refused. -/
def performed (c : Task.Context) (p : Pass) : List Task.Act → List Task.Act
  | [] => []
  | a :: rest =>
    match p.act c a with
    | .ok p' => a :: performed c p' rest
    | .error _ => []

/-- What is reported among some acts. -/
def reportsAmong (acts : List Task.Act) : List Incident :=
  acts.filterMap fun
    | .report n => some (.report n.level)
    | _ => none

/-- What the run reports about how a task ended. A refused act is a failure of the task. -/
def endOf : Option SystemFailure → Task.Outcome → List Incident
  | some _, _ => [.raised]
  | none, .failed _ => [.raised]
  | none, .nonText _ => [.nonText]
  | none, .text _ => []

/-- What is reported while a task looks at a file. -/
def taskIncidents (c : Task.Context) (p : Pass) (t : Task) : List Incident :=
  let r := t.handler c p.content
  reportsAmong (performed c p r.acts) ++ endOf (p.actAll c r.acts).2 r.outcome

/-- What is reported while tasks look at a file one after the other. -/
def incidents (c : Task.Context) : Pass → List Task → List Incident
  | _, [] => []
  | p, t :: rest => taskIncidents c p t ++ incidents c (p.step c t) rest

/-- A pass that goes on from another: its world has gained findings, and it remembers whether any of them is fatal. -/
structure Gains (readOnly : Bool) (is : List Incident) (p p' : Pass) : Prop where
  world : p.world.Gains is p'.world
  hasError : p'.hasError = (p.hasError || is.any (Incident.isFatal readOnly))

theorem Gains.of_same {readOnly : Bool} {p p' : Pass} (hworld : p'.world.reporter.findings = p.world.reporter.findings)
    (herror : p'.hasError = p.hasError) : p.Gains readOnly [] p' :=
  ⟨.of_same hworld, by rw [herror, List.any_nil, Bool.or_false]⟩

theorem Gains.trans {readOnly : Bool} {is is' : List Incident} {p₁ p₂ p₃ : Pass} (h : p₁.Gains readOnly is p₂)
    (h' : p₂.Gains readOnly is' p₃) : p₁.Gains readOnly (is ++ is') p₃ :=
  ⟨h.world.trans h'.world, by rw [h'.hasError, h.hasError, List.any_append, Bool.or_assoc]⟩

variable (c : Task.Context)

theorem gains_notice {i : Incident} {n : Task.Notice} (h : n.level = i.level) (p : Pass) :
    p.Gains c.readOnly [i] (p.notice c n) := by
  refine ⟨p.world.gains_report h, ?_⟩
  simp [notice, Incident.isFatal, h]

/-- An act gains what it reports. -/
theorem gains_act {p p' : Pass} {a : Task.Act} (h : p.act c a = .ok p') : p.Gains c.readOnly (reportsAmong [a]) p' := by
  cases a with
  | report n =>
    cases h
    exact p.gains_notice c (i := .report n.level) rfl
  | remove path =>
    simp only [act] at h
    cases hremove : p.world.tree.remove [] (Path.ofText path) with
    | error f =>
      rw [hremove] at h
      cases h
    | ok t =>
      rw [hremove] at h
      cases h
      exact .of_same rfl rfl
  | record content =>
    cases h
    exact .of_same rfl rfl

/-- Acts gain what is reported among those that come to pass. -/
theorem gains_actAll (acts : List Task.Act) (p : Pass) :
    p.Gains c.readOnly (reportsAmong (performed c p acts)) (p.actAll c acts).1 := by
  induction acts generalizing p with
  | nil => exact .of_same rfl rfl
  | cons a rest ih =>
    unfold actAll performed
    cases hact : p.act c a with
    | error f => exact .of_same rfl rfl
    | ok p' =>
      have hboth := (p.gains_act c hact).trans (ih p')
      rwa [reportsAmong, reportsAmong, ← List.filterMap_append] at hboth

theorem gains_settle (name : Text) (p : Pass) (o : Task.Outcome) : p.Gains c.readOnly (endOf none o) (settle c name p o) := by
  cases o with
  | text t =>
    by_cases herror : p.hasError = true
    · rw [settle, if_pos herror]
      exact .of_same rfl rfl
    · rw [settle, if_neg herror]
      exact .of_same rfl rfl
  | nonText k => exact p.gains_notice c (i := .nonText) rfl
  | failed f => exact p.gains_notice c (i := .raised) rfl

/-- A task gains its incidents. -/
theorem gains_step (p : Pass) (t : Task) : p.Gains c.readOnly (taskIncidents c p t) (p.step c t) := by
  have hacts := p.gains_actAll c (t.handler c p.content).acts
  unfold taskIncidents step
  cases hall : p.actAll c (t.handler c p.content).acts with
  | mk q refusal =>
    rw [hall] at hacts
    simp only [hall]
    cases refusal with
    | none => exact hacts.trans (gains_settle c t.name q _)
    | some f => exact hacts.trans (gains_settle c t.name q (.failed (.system (some f.message))))

/-- Tasks gain their incidents. -/
theorem gains_foldl (tasks : List Task) (p : Pass) : p.Gains c.readOnly (incidents c p tasks) (tasks.foldl (step c) p) := by
  induction tasks generalizing p with
  | nil => exact .of_same rfl rfl
  | cons t rest ih => exact (p.gains_step c t).trans (ih (p.step c t))

end Pass

/-! ## Files -/

namespace Job

/-- What is reported when the content that a pass has left is written back. -/
def writeIncidents (j : Job) (r : Record) (p : Pass) : List Incident :=
  match (p.world.tree.write j.work r.path p.content).2 with
  | some (.system _) => [.unwritten]
  | _ => []

/-- What is reported when a file is processed. -/
def incidents (j : Job) (r : Record) (w : World) : List Incident :=
  match w.tree.read j.work r.path with
  | .error _ => [.unread]
  | .ok bytes =>
    let given := Utf8.decode bytes
    let p := j.pass r w given
    Pass.incidents ⟨r.relative, j.readOnly⟩ ⟨w, given, false⟩ (j.tasks.filter (·.looksAt r.path.name)) ++
      if p.content = given ∨ j.readOnly = true then [] else j.writeIncidents r p

theorem gains_pass (j : Job) (r : Record) (w : World) (content : Text) :
    Pass.Gains j.readOnly
      (Pass.incidents ⟨r.relative, j.readOnly⟩ ⟨w, content, false⟩ (j.tasks.filter (·.looksAt r.path.name)))
      ⟨w, content, false⟩ (j.pass r w content) :=
  Pass.gains_foldl ⟨r.relative, j.readOnly⟩ _ _

/-- Writing back gains its incidents, and the file is fine when the pass has found nothing wrong and it is written. -/
theorem gains_writeBack {j : Job} {r : Record} {p : Pass} {w' : World} {result : Result}
    (h : j.writeBack r p = .ok (w', result)) :
    p.world.Gains (j.writeIncidents r p) w' ∧
      result.ok = !(p.hasError || (j.writeIncidents r p).any (Incident.isFatal j.readOnly)) := by
  unfold writeBack at h
  unfold writeIncidents
  cases hwrite : p.world.tree.write j.work r.path p.content with
  | mk t e =>
    rw [hwrite] at h
    cases e with
    | none =>
      cases h
      exact ⟨.of_same rfl, by simp⟩
    | some e =>
      cases e with
      | encode e => cases h
      | system e =>
        cases h
        exact ⟨World.gains_report (i := .unwritten) rfl { p.world with tree := t },
          by simp [Incident.isFatal, Incident.level, isFatal]⟩

/-- Processing a file gains its incidents, and the file is fine when none of them is fatal. -/
theorem gains_process {j : Job} {r : Record} {w w' : World} {result : Result} (h : j.process r w = .ok (w', result)) :
    w.Gains (j.incidents r w) w' ∧ result.ok = !(j.incidents r w).any (Incident.isFatal j.readOnly) := by
  unfold incidents
  cases hread : w.tree.read j.work r.path with
  | error e =>
    rw [j.process_of_unread r w hread] at h
    cases h
    exact ⟨w.gains_report (i := .unread) rfl, by simp [Incident.isFatal, Incident.level, isFatal]⟩
  | ok bytes =>
    obtain ⟨hworld, herror⟩ := j.gains_pass r w (Utf8.decode bytes)
    simp only [Bool.false_or] at herror
    by_cases hkept : (j.pass r w (Utf8.decode bytes)).content = Utf8.decode bytes ∨ j.readOnly = true
    · rw [j.process_of_kept r w hread hkept] at h
      cases h
      simp only [if_pos hkept, List.append_nil]
      exact ⟨hworld, by rw [herror]⟩
    · simp only [if_neg hkept]
      rw [not_or, Bool.not_eq_true] at hkept
      rw [j.process_of_changed r w hread hkept.1 hkept.2] at h
      obtain ⟨hwrite, hok⟩ := gains_writeBack h
      exact ⟨hworld.trans hwrite, by rw [hok, herror, List.any_append]⟩

end Job

/-! ## Runs -/

namespace Plan

variable (p : Plan) (root : Path)

/-- What is reported in the turn of a file. -/
def turnIncidents (turn : Path × State) : List Incident :=
  match p.announce (.ofPath root turn.1) turn.2 with
  | .ok s => p.job.incidents (.ofPath root turn.1) s.world
  | .error _ => []

/-- A state that goes on from another in a run: its world has gained findings, and the verdict is good as long as none of
them is fatal. -/
structure Gains (is : List Incident) (s s' : State) : Prop where
  world : s.world.Gains is s'.world
  success : s'.verdict.success = (s.verdict.success && !is.any (Incident.isFatal p.readOnly))

variable {p} in
theorem Gains.trans {is is' : List Incident} {s₁ s₂ s₃ : State} (h : p.Gains is s₁ s₂) (h' : p.Gains is' s₂ s₃) :
    p.Gains (is ++ is') s₁ s₃ :=
  ⟨h.world.trans h'.world, by rw [h'.success, h.success, List.any_append, Bool.not_or, Bool.and_assoc]⟩

/-- The turn of a file gains its incidents. -/
theorem gains_visit {path : Path} {s s' : State} (h : p.visit root path s = .ok s') :
    p.Gains (p.turnIncidents root (path, s)) s s' := by
  obtain ⟨tree, world, result, tree', hbefore, hprocess, -, rfl⟩ := (p.visit_eq_ok_iff root).1 h
  obtain ⟨hworld, hok⟩ := Job.gains_process hprocess
  rw [turnIncidents, p.announce_eq_ok_iff.2 ⟨tree, hbefore, rfl⟩]
  refine ⟨?_, ?_⟩
  · have hannounced : s.world.Gains [] { s.world with tree } := .of_same rfl
    have hfinished : world.Gains [] { world with tree := tree' } := .of_same rfl
    simpa using (hannounced.trans hworld).trans hfinished
  · rw [Verdict.add, hok]
    rfl

/-- The turn of a file, with the turns that have been noted so far. -/
def visitNoting (path : Path) (s : State × List (Path × State)) : Except Stopped (State × List (Path × State)) :=
  (p.visit root path s.1).map fun s' => (s', s.2 ++ [(path, s.1)])

/-- The turns of a run: its files, with the states in which their turns come. -/
def runTurns (w : World) : List (Path × State) :=
  match p.walk.run (·.1.world.tree) (p.visitNoting root) root (({ world := w } : State), []) with
  | .ok (_, turns) => turns
  | .error _ => []

/-- What is reported in a run. -/
def incidents (w : World) : List Incident := (p.runTurns root w).flatMap (p.turnIncidents root)

/-- Where a run is, with the turns that have been noted: their incidents have been gained since the start. -/
def Noted (w : World) (s : State) (noted : State × List (Path × State)) : Prop :=
  noted.1 = s ∧ p.Gains (noted.2.flatMap (p.turnIncidents root)) { world := w } s

/-- A run goes through the states in which its turns are noted. -/
theorem simulates_visitNoting (w : World) (path : Path) :
    Simulates (fun _ => True) (p.Noted root w) (p.visit root path) (p.visitNoting root path) := by
  refine ⟨fun _ _ _ _ => trivial, ?_⟩
  rintro s s' ⟨t, turns⟩ ⟨hsame, hgains⟩ hs -
  obtain rfl : t = s := hsame
  refine ⟨(s', turns ++ [(path, t)]), ?_, rfl, ?_⟩
  · rw [visitNoting, hs]
    rfl
  · rw [List.flatMap_append, List.flatMap_singleton]
    exact hgains.trans (p.gains_visit root hs)

/-- A run that ends is one whose turns can be noted, and it gains their incidents. -/
theorem gains_run {w : World} {s : State} (h : p.run root w = .ok s) :
    p.walk.run (·.1.world.tree) (p.visitNoting root) root (({ world := w } : State), []) = .ok (s, p.runTurns root w) ∧
      p.Gains (p.incidents root w) { world := w } s := by
  have hwalk := Walk.simulates_run (p.simulates_visitNoting root w) (fun s => s.world.tree) (fun noted => noted.1.world.tree)
    (fun s noted hnoted => by rw [hnoted.1]) p.walk root
  have hstart : p.Noted root w { world := w } ({ world := w }, []) := ⟨rfl, .of_same rfl, by simp⟩
  obtain ⟨⟨t, turns⟩, hrun, hsame, hgains⟩ := hwalk.forth _ _ _ hstart h trivial
  obtain rfl : t = s := hsame
  have hturns : p.runTurns root w = turns := by
    rw [runTurns, hrun]
  rw [incidents, hturns]
  exact ⟨hrun, hgains⟩

/-- Every count grows by the reports of its level, and that of errors by everything else that is reported. -/
theorem count_of_run {w : World} {s : State} (h : p.run root w = .ok s) (l : Level) :
    s.world.reporter.count l = w.reporter.count l +
      ((p.incidents root w).count (.report l) +
        if l = .error then
          (p.incidents root w).count .raised + (p.incidents root w).count .nonText +
            (p.incidents root w).count .unread + (p.incidents root w).count .unwritten
        else 0) := by
  obtain ⟨-, hgains⟩ := p.gains_run root h
  rw [hgains.world.count l, Incident.countP_level]

/-- A run is a success when no error has been counted in it, and no fix that stays unwritten. -/
theorem success_of_run {w : World} {s : State} (h : p.run root w = .ok s) :
    s.verdict.success = true ↔
      s.world.reporter.count .error = w.reporter.count .error ∧
        (p.readOnly = true → s.world.reporter.count .fix = w.reporter.count .fix) := by
  obtain ⟨-, hgains⟩ := p.gains_run root h
  rw [hgains.success, Bool.true_and, Bool.not_eq_true', Incident.any_isFatal_eq_false_iff, hgains.world.count,
    hgains.world.count, Nat.add_eq_left, Nat.add_eq_left]

end Plan
end SourceTidy.Run
