import SourceTidy.Proofs.Run.Mishaps
import SourceTidy.Proofs.Run.Visiting
import SourceTidy.Proofs.Tree.Replace

/-!
# A file that fails leaves the others alone

Reading a file may fail, writing it may fail at every step, and tasks may fail. A file that cannot be read, or not be written
back, is reported and leaves the tree as it was, so the files after it are processed as if it had not been there. What stops
a run all the same is a path that the system does not take when the walk asks what is there, a text that has no bytes, and a
report of the run itself that cannot be made (`Job.Escapes`). `run_isolates_failures` says that nothing else does.
-/

namespace SourceTidy.Run

/-! ## Files that fail -/

/-- What keeps a file from being read, or from being written back. -/
inductive Trouble where
  | unread (e : SystemError)
  /-- The text to write has no bytes. -/
  | unencodable (e : Utf8.EncodeError)
  | unwritten (e : SystemError)
  deriving DecidableEq, Repr

/-- What keeps a file from being written back. -/
def Trouble.ofWrite : WriteError → Trouble
  | .encode e => .unencodable e
  | .system e => .unwritten e

/-- The finding for a file that fails; a text without bytes is not reported. -/
def Trouble.finding? (r : Record) : Trouble → Option Finding
  | unread e => some (troubleWith r "Unable to read file" e)
  | unencodable _ => none
  | unwritten e => some (troubleWith r "Unable to write file" e)

/-- A file that fails is reported as an error of that file. -/
theorem Trouble.finding?_isError {r : Record} {t : Trouble} {f : Finding} (h : t.finding? r = some f) :
    f.level = .error ∧ f.path = r.relative := by
  cases t <;> simp only [finding?, Option.some.injEq, reduceCtorEq] at h
  all_goals
    subst h
    exact ⟨rfl, rfl⟩

namespace Job

section Escaping

variable (j : Job) (m : Mishaps) (r : Record) (w : World)

/-- What keeps a file from being read, or its content from being written back if that is to be done. -/
def trouble? : Option Trouble :=
  match j.readUnder m r w.tree with
  | .error e => some (.unread e)
  | .ok bytes =>
    match j.passUnder m r w (Utf8.decode bytes) with
    | .error _ => none
    | .ok p =>
      if p.content = Utf8.decode bytes ∨ j.readOnly = true then none
      else (p.world.tree.writeUnder (m.faults r) j.work r.path p.content).2.map Trouble.ofWrite

/-- The run cannot say how one of the tasks that look at a file has ended. -/
def LosesReport : Prop :=
  ∃ bytes before t rest p, j.readUnder m r w.tree = .ok bytes ∧
    j.tasks.filter (·.looksAt r.path.name) = before ++ t :: rest ∧
    before.foldlM (Pass.stepUnder m ⟨r.relative, j.readOnly⟩) ⟨w, Utf8.decode bytes, false⟩ = .ok p ∧
    Pass.Unreported m ⟨r.relative, j.readOnly⟩ t.name (p.outcomeUnder m ⟨r.relative, j.readOnly⟩ t)

/-- The processing of a file stops the run. -/
inductive Escapes : Prop where
  /-- The text to write has no bytes. -/
  | unencodable {e : Utf8.EncodeError} (h : j.trouble? m r w = some (.unencodable e))
  /-- The file cannot be read or written, and the finding for it cannot be printed. -/
  | unprinted {t : Trouble} {f : Finding} (h : j.trouble? m r w = some t) (hf : t.finding? r = some f)
    (hprint : m.unprinted f ≠ none)
  | unreported (h : j.LosesReport m r w)

/-- What the processing of a file can come to when the tasks remove nothing. -/
inductive Ending : Except Halt (World × Result) → Prop where
  /-- The file is read, and written back if it is to be. -/
  | done {w' : World} {result : Result} (hnone : j.trouble? m r w = none) (hreports : ¬ j.LosesReport m r w)
    (houtline : w'.tree.outline = w.tree.outline) (hfindings : w.reporter.findings <+: w'.reporter.findings) :
    Ending (.ok (w', result))
  /-- The file fails, and is to be reported. -/
  | refused {t : Trouble} {f : Finding} {w' : World} (hsome : j.trouble? m r w = some t) (hf : t.finding? r = some f)
    (hreports : ¬ j.LosesReport m r w) (hadds : w.Adds w') : Ending ((w'.reportUnder m f).map (·, ⟨false, false⟩))
  | unencodable {e : Utf8.EncodeError} {w' : World} (hsome : j.trouble? m r w = some (.unencodable e))
    (hadds : w.Adds w') : Ending (.error ⟨w', .unwritable e⟩)
  | unreported {h : Halt} (hnone : j.trouble? m r w = none) (hlost : j.LosesReport m r w) (hadds : w.Adds h.world) :
    Ending (.error h)

end Escaping

variable {j : Job} {m : Mishaps} {r : Record} {w : World}

theorem passUnder_eq_ok_iff {bytes : Bytes} (hread : j.readUnder m r w.tree = .ok bytes) :
    (∃ p, j.passUnder m r w (Utf8.decode bytes) = .ok p) ↔ ¬ j.LosesReport m r w := by
  rw [passUnder, Pass.runUnder, Pass.foldlM_stepUnder_eq_ok_iff]
  constructor
  · rintro h ⟨bytes', before, t, rest, p, hread', hsplit, hbefore, hlost⟩
    rw [hread] at hread'
    cases hread'
    exact h before t rest p hsplit hbefore hlost
  · intro h before t rest p hsplit hbefore hlost
    exact h ⟨bytes, before, t, rest, p, hread, hsplit, hbefore, hlost⟩

/-- Writing a text to a file that can be read leaves the outline of the tree as it was. -/
theorem outline_writeUnder {t : Tree} (ht : t.WellFormed) {work : Location} {p : Path} (hp : p.IsPlain) {old : Bytes}
    (hread : t.read work p = .ok old) (faults : Tree.Faults) {text : Text} {u : Tree}
    (h : t.writeUnder faults work p text = (u, none)) : u.outline = t.outline := by
  obtain ⟨l, mode, hlocate, hget⟩ := (t.read_eq_ok_iff work p old).1 hread
  have hreal := Tree.real_of_locatePath hp hlocate
  have hlink : ∀ target, t.get? (t.real work p) ≠ some (.link target) := by
    rw [hreal, hget]
    exact fun target => nofun
  obtain ⟨bytes, mode', old', -, htarget, -, -, rfl⟩ := (ht.writeUnder_eq_none_iff hlink).1 h
  exact Tree.outline_put htarget

section Endings

variable (hk : ∀ t ∈ j.tasks, t.KeepsTree) (hr : r.path.IsPlain) (ht : w.tree.WellFormed) {bytes : Bytes}
  (hread : j.readUnder m r w.tree = .ok bytes)
include hk hread

/-- A file whose pass stops the run. -/
theorem ending_of_unpassed {h : Halt} (hpass : j.passUnder m r w (Utf8.decode bytes) = .error h) :
    Ending j m r w (j.processUnder m r w) := by
  have hadds := j.adds_passUnder m hk r w (Utf8.decode bytes)
  have hok := passUnder_eq_ok_iff hread
  rw [hpass] at hadds hok
  have hnone : j.trouble? m r w = none := by simp only [trouble?, hread, hpass]
  have hlost : j.LosesReport m r w := by
    by_contra hne
    obtain ⟨p, hp⟩ := hok.2 hne
    cases hp
  have hprocess : j.processUnder m r w = .error h := by
    simp only [processUnder, hread, hpass, bind, Except.bind]
  rw [hprocess]
  exact .unreported hnone hlost hadds

include hr ht

/-- A file whose pass comes to its end. -/
theorem ending_of_passed {p : Pass} (hpass : j.passUnder m r w (Utf8.decode bytes) = .ok p) :
    Ending j m r w (j.processUnder m r w) := by
  have hadds := j.adds_passUnder m hk r w (Utf8.decode bytes)
  rw [hpass] at hadds
  have hadds : w.Adds p.world := hadds
  have hreports := (passUnder_eq_ok_iff hread).1 ⟨p, hpass⟩
  by_cases hkept : p.content = Utf8.decode bytes ∨ j.readOnly = true
  · have hnone : j.trouble? m r w = none := by simp only [trouble?, hread, hpass, if_pos hkept]
    have hprocess : j.processUnder m r w = .ok (p.world, ⟨!p.hasError, false⟩) := by
      simp only [processUnder, hread, hpass, bind, Except.bind]
      exact if_pos (by simpa using hkept)
    rw [hprocess]
    exact .done hnone hreports (congrArg Tree.outline hadds.tree) hadds.findings
  · have htrouble : j.trouble? m r w =
        (w.tree.writeUnder (m.faults r) j.work r.path p.content).2.map Trouble.ofWrite := by
      simp only [trouble?, hread, hpass, if_neg hkept, hadds.tree]
    have hprocess : j.processUnder m r w = j.writeBackUnder m r p := by
      simp only [processUnder, hread, hpass, bind, Except.bind]
      exact if_neg (by simpa using hkept)
    rw [hprocess, writeBackUnder, hadds.tree]
    cases hwrite : w.tree.writeUnder (m.faults r) j.work r.path p.content with
    | mk t e =>
      rw [hwrite] at htrouble
      cases e with
      | none =>
        have hread' : w.tree.read j.work r.path = .ok bytes := by
          simp only [readUnder] at hread
          split at hread
          · exact hread
          · cases hread
        exact .done htrouble hreports (outline_writeUnder ht hr hread' _ hwrite) hadds.findings
      | some e =>
        -- a write that fails leaves the tree, and so the world, as it was
        obtain rfl : t = w.tree := ht.writeUnder_eq_some hwrite
        have hsame : ({ p.world with tree := w.tree } : World) = p.world := by rw [← hadds.tree]
        cases e with
        | encode e =>
          simp only [hsame]
          exact .unencodable htrouble hadds
        | system e =>
          simp only [hsame]
          exact .refused htrouble rfl hreports hadds

end Endings

/-- The cases of `Ending` are all that there are. -/
theorem ending_processUnder (hk : ∀ t ∈ j.tasks, t.KeepsTree) (hr : r.path.IsPlain) (ht : w.tree.WellFormed) :
    Ending j m r w (j.processUnder m r w) := by
  cases hread : j.readUnder m r w.tree with
  | error e =>
    have hsome : j.trouble? m r w = some (.unread e) := by simp only [trouble?, hread]
    have hreports : ¬ j.LosesReport m r w := by
      rintro ⟨bytes, before, t, rest, p, hread', -⟩
      rw [hread] at hread'
      cases hread'
    have hprocess : j.processUnder m r w =
        (w.reportUnder m (troubleWith r "Unable to read file" e)).map (·, ⟨false, false⟩) := by
      simp only [processUnder, hread]
    rw [hprocess]
    exact .refused hsome rfl hreports (.refl w)
  | ok bytes =>
    cases hpass : j.passUnder m r w (Utf8.decode bytes) with
    | error h => exact ending_of_unpassed hk hread hpass
    | ok p => exact ending_of_passed hk hr ht hread hpass

/-- A file that is read and written as it is to be, or cannot be and is reported, does not stop the run. -/
theorem processUnder_eq_ok_iff (hk : ∀ t ∈ j.tasks, t.KeepsTree) (hr : r.path.IsPlain) (ht : w.tree.WellFormed) :
    (∃ ended, j.processUnder m r w = .ok ended) ↔ ¬ j.Escapes m r w := by
  have hending := ending_processUnder (m := m) hk hr ht
  generalize j.processUnder m r w = ended at hending
  cases hending with
  | done hnone hreports =>
    refine ⟨?_, fun _ => ⟨_, rfl⟩⟩
    rintro - (h | ⟨h, -, -⟩ | h)
    · simp [hnone] at h
    · simp [hnone] at h
    · exact hreports h
  | @refused t f w' hsome hf hreports =>
    have hok : (∃ ended, (w'.reportUnder m f).map (·, (⟨false, false⟩ : Result)) = .ok ended) ↔ m.unprinted f = none := by
      rw [World.reportUnder]
      cases m.unprinted f <;> simp [Except.map]
    rw [hok]
    constructor
    · rintro hprinted (h | ⟨h, hf', hprint⟩ | h)
      · rw [hsome] at h
        cases h
        cases hf
      · rw [hsome] at h
        cases h
        rw [hf] at hf'
        cases hf'
        exact hprint hprinted
      · exact hreports h
    · intro h
      by_contra hprint
      exact h (.unprinted hsome hf hprint)
  | unencodable hsome =>
    refine ⟨?_, fun h => absurd (.unencodable hsome) h⟩
    rintro ⟨ended, ⟨⟩⟩
  | unreported hnone hlost =>
    refine ⟨?_, fun h => absurd (.unreported hlost) h⟩
    rintro ⟨ended, ⟨⟩⟩

/-- The outline of the tree stays as it was, however the processing of a file ends. -/
theorem Ending.outline {ended : Except Halt (World × Result)} (h : Ending j m r w ended) :
    (worldLeft Prod.fst ended).tree.outline = w.tree.outline := by
  cases h with
  | done hnone hreports houtline => exact houtline
  | @refused t f w' hsome hf hreports hadds =>
    rw [World.reportUnder]
    cases m.unprinted f <;> exact congrArg Tree.outline hadds.tree
  | unencodable hsome hadds => exact congrArg Tree.outline hadds.tree
  | unreported hnone hlost hadds => exact congrArg Tree.outline hadds.tree

/-- What has been found stays found, however the processing of a file ends. -/
theorem Ending.findings {ended : Except Halt (World × Result)} (h : Ending j m r w ended) :
    w.reporter.findings <+: (worldLeft Prod.fst ended).reporter.findings := by
  cases h with
  | done hnone hreports houtline hfindings => exact hfindings
  | @refused t f w' hsome hf hreports hadds =>
    rw [World.reportUnder]
    cases m.unprinted f <;> exact (hadds.trans (w'.adds_report f)).findings
  | unencodable hsome hadds => exact hadds.findings
  | unreported hnone hlost hadds => exact hadds.findings

/-- A file that fails leaves the tree as it was. -/
theorem Ending.tree_of_trouble {ended : Except Halt (World × Result)} (h : Ending j m r w ended) {t : Trouble}
    (ht : j.trouble? m r w = some t) : (worldLeft Prod.fst ended).tree = w.tree := by
  cases h with
  | done hnone =>
    rw [hnone] at ht
    cases ht
  | @refused t' f w' hsome hf hreports hadds =>
    rw [World.reportUnder]
    cases m.unprinted f <;> exact hadds.tree
  | unencodable hsome hadds => exact hadds.tree
  | unreported hnone =>
    rw [hnone] at ht
    cases ht

/-- A file that fails is reported as an error and is not fine, unless it stops the run. -/
theorem processUnder_of_trouble (hk : ∀ t ∈ j.tasks, t.KeepsTree) (hr : r.path.IsPlain) (ht : w.tree.WellFormed)
    {t : Trouble} (htrouble : j.trouble? m r w = some t) (hends : ¬ j.Escapes m r w) :
    ∃ (f : Finding) (w' : World), t.finding? r = some f ∧ j.processUnder m r w = .ok (w'.report f, ⟨false, false⟩) := by
  have hending := ending_processUnder (m := m) hk hr ht
  generalize j.processUnder m r w = ended at hending
  cases hending with
  | done hnone =>
    rw [hnone] at htrouble
    cases htrouble
  | @refused t' f w' hsome hf hreports hadds =>
    rw [hsome] at htrouble
    cases htrouble
    have hprinted : m.unprinted f = none := by
      by_contra hprint
      exact hends (.unprinted hsome hf hprint)
    refine ⟨f, w', hf, ?_⟩
    rw [World.reportUnder, hprinted]
    rfl
  | unencodable hsome => exact absurd (.unencodable hsome) hends
  | unreported hnone hlost => exact absurd (.unreported hlost) hends

/-- When every finding is printed and every failure has words, it takes a text without bytes to stop the run. -/
theorem escapes_iff_of_printed (hprinted : ∀ f, m.unprinted f = none) (hwords : ∀ f, m.wordless f = none) :
    j.Escapes m r w ↔ ∃ e, j.trouble? m r w = some (.unencodable e) := by
  constructor
  · rintro (h | ⟨h, hf, hprint⟩ | ⟨bytes, before, t, rest, p, -, -, -, hlost⟩)
    · exact ⟨_, h⟩
    · exact absurd (hprinted _) hprint
    · generalize p.outcomeUnder m ⟨r.relative, j.readOnly⟩ t = outcome at hlost
      cases hlost with
      | wordless h => exact absurd (hwords _) h
      | failed h => exact absurd (hprinted _) h
      | nonText h => exact absurd (hprinted _) h
  · rintro ⟨e, h⟩
    exact .unencodable h

end Job

/-! ## Turns -/

/-- The file that is processed in an event. -/
def Event.processed? : Event → Option Text
  | .process path _ => some path
  | _ => none

/-- A state that goes on from another: what has failed stays failed, and what has been found stays found. -/
structure State.Extends (s s' : State) : Prop where
  findings : s.world.reporter.findings <+: s'.world.reporter.findings
  failed : s.verdict.failed <+: s'.verdict.failed
  success : s.verdict.success = false → s'.verdict.success = false

theorem State.Extends.refl (s : State) : s.Extends s := ⟨List.prefix_rfl, List.prefix_rfl, id⟩

theorem State.Extends.trans {s₁ s₂ s₃ : State} (h : s₁.Extends s₂) (h' : s₂.Extends s₃) : s₁.Extends s₃ :=
  ⟨h.findings.trans h'.findings, h.failed.trans h'.failed, fun hs => h'.success (h.success hs)⟩

namespace Plan

variable (p : Plan) (m : Mishaps) (root : Path)

/-- The state after the turn of a file, also when the run stops there. -/
def settledUnder : Path → State → State := settledBy (p.visitUnder m root)

/-- Files with the states in which their turns come. -/
def turnsUnder : List Path → State → List (Path × State) := turnsBy (p.visitUnder m root)

/-- What keeps a file from being read or written back in its turn. -/
def trouble? (turn : Path × State) : Option Trouble := p.job.trouble? m (.ofPath root turn.1) turn.2.world

/-- A turn stops the run. -/
def Escapes (turn : Path × State) : Prop := p.job.Escapes m (.ofPath root turn.1) turn.2.world

variable {p m root}

section Turn

variable (hhooks : p.hooks = {}) {path : Path} {s : State}
include hhooks

/-- The turn of a file that is processed to its end. -/
theorem visitUnder_of_ok {w : World} {result : Result}
    (h : p.job.processUnder m (.ofPath root path) s.world = .ok (w, result)) :
    p.visitUnder m root path s = .ok (p.settledUnder m root path s) ∧
      p.settledUnder m root path s =
        ⟨w, s.verdict.add (.ofPath root path) result,
          s.events ++ [.before (path.relativeTo root) s.world, .process (path.relativeTo root) s.world,
            .after (path.relativeTo root) result.ok w]⟩ := by
  have hvisit : p.visitUnder m root path s = _ := visitBy_of_ok (p.job.processUnder m) root hhooks h
  rw [settledUnder, settledBy_of_ok hvisit]
  exact ⟨hvisit, rfl⟩

/-- The turn of a file whose processing stops the run. -/
theorem visitUnder_of_error {h : Halt} (hprocess : p.job.processUnder m (.ofPath root path) s.world = .error h) :
    p.visitUnder m root path s = .error ⟨p.settledUnder m root path s, h.reason⟩ ∧
      p.settledUnder m root path s =
        ⟨h.world, s.verdict,
          s.events ++ [.before (path.relativeTo root) s.world, .process (path.relativeTo root) s.world]⟩ := by
  have hvisit : p.visitUnder m root path s = _ := visitBy_of_error (p.job.processUnder m) root hhooks hprocess
  rw [settledUnder, settledBy, hvisit]
  exact ⟨rfl, rfl⟩

/-- The world after a turn is what processing the file leaves. -/
theorem world_settledUnder :
    (p.settledUnder m root path s).world = worldLeft Prod.fst (p.job.processUnder m (.ofPath root path) s.world) := by
  cases hprocess : p.job.processUnder m (.ofPath root path) s.world with
  | ok ended => rw [(visitUnder_of_ok hhooks hprocess).2, worldLeft]
  | error h => rw [(visitUnder_of_error hhooks hprocess).2, worldLeft]

variable (hk : ∀ t ∈ p.tasks, t.KeepsTree) (hpath : path.IsPlain) (ht : s.world.tree.WellFormed)
include hk hpath ht

/-- What has happened before a turn is kept. -/
theorem extends_settledUnder : s.Extends (p.settledUnder m root path s) := by
  have hending := Job.ending_processUnder (j := p.job) (m := m) (r := .ofPath root path) hk hpath ht
  refine ⟨world_settledUnder hhooks ▸ hending.findings, ?_, ?_⟩ <;>
    cases hprocess : p.job.processUnder m (.ofPath root path) s.world with
    | ok ended =>
      rw [(visitUnder_of_ok hhooks hprocess).2]
      cases hok : ended.2.ok <;> simp [Verdict.add, hok]
    | error h => simp [(visitUnder_of_error hhooks hprocess).2]

/-- A turn comes to its end unless processing the file stops the run. -/
theorem visitUnder_eq_ok_iff : (∃ s', p.visitUnder m root path s = .ok s') ↔ ¬ p.Escapes m root (path, s) := by
  refine Iff.trans ?_ (Job.processUnder_eq_ok_iff (j := p.job) (m := m) (r := .ofPath root path) hk hpath ht)
  cases hprocess : p.job.processUnder m (.ofPath root path) s.world with
  | ok ended => exact ⟨fun _ => ⟨ended, rfl⟩, fun _ => ⟨_, (visitUnder_of_ok hhooks hprocess).1⟩⟩
  | error h => simp [(visitUnder_of_error hhooks hprocess).1]

/-- A file that fails leaves the tree as it was, also when the run stops there. -/
theorem tree_settledUnder_of_trouble {t : Trouble} (h : p.trouble? m root (path, s) = some t) :
    (p.settledUnder m root path s).world.tree = s.world.tree := by
  rw [world_settledUnder hhooks]
  exact (Job.ending_processUnder (j := p.job) hk hpath ht).tree_of_trouble h

/-- The turn of a file that fails adds the finding for it, and the file to those that failed, unless it stops the run. -/
theorem visitUnder_of_trouble {t : Trouble} (h : p.trouble? m root (path, s) = some t)
    (hends : ¬ p.Escapes m root (path, s)) :
    ∃ s', p.visitUnder m root path s = .ok s' ∧ path.relativeTo root ∈ s'.verdict.failed ∧ s'.verdict.success = false ∧
      ∃ f ∈ s'.world.reporter.findings, t.finding? (.ofPath root path) = some f ∧ f.level = .error ∧
        f.path = path.relativeTo root := by
  obtain ⟨f, w', hf, hprocess⟩ := Job.processUnder_of_trouble (j := p.job) hk hpath ht h hends
  obtain ⟨hvisit, hsettled⟩ := visitUnder_of_ok hhooks hprocess
  refine ⟨_, hvisit, ?_, ?_, f, ?_, hf, Trouble.finding?_isError hf⟩ <;>
    simp [hsettled, Verdict.add, Record.ofPath, World.report, Reporter.report]

end Turn

/-! ## Runs -/

section Turns

variable (hhooks : p.hooks = {}) (hk : ∀ t ∈ p.tasks, t.KeepsTree)
include hhooks hk

theorem keepsOutline_visitUnder : KeepsOutline (p.visitUnder m root) := by
  intro path s hpath ht
  rw [← settledUnder, world_settledUnder hhooks]
  exact (Job.ending_processUnder (j := p.job) hk hpath ht).outline

/-- What has happened in a turn is kept by those after it. -/
theorem extends_of_mem_turnsUnder (files : List Path) (hfiles : ∀ f ∈ files, f.IsPlain) {s : State}
    (ht : s.world.tree.WellFormed) :
    s.Extends (files.foldl (fun s f => p.settledUnder m root f s) s) ∧
      ∀ x ∈ p.turnsUnder m root files s,
        (p.settledUnder m root x.1 x.2).Extends (files.foldl (fun s f => p.settledUnder m root f s) s) := by
  induction files generalizing s with
  | nil => exact ⟨.refl s, fun x hx => absurd hx List.not_mem_nil⟩
  | cons path rest ih =>
    obtain ⟨hpath, hrest⟩ := List.forall_mem_cons.1 hfiles
    have hkeeps : KeepsOutline (p.visitUnder m root) := keepsOutline_visitUnder hhooks hk
    obtain ⟨hext, hturns⟩ := ih hrest (hkeeps.wellFormed hpath ht)
    rw [turnsUnder, turnsBy, List.forall_mem_cons]
    exact ⟨(extends_settledUnder hhooks hk hpath ht).trans hext, hext, hturns⟩

omit hk in
/-- Files whose turns all end are counted, and processed in order. -/
theorem counts_of_turnsUnder (files : List Path) (s : State)
    (hends : ∀ x ∈ p.turnsUnder m root files s, ∃ s', p.visitUnder m root x.1 x.2 = .ok s') :
    (files.foldl (fun s f => p.settledUnder m root f s) s).verdict.files = s.verdict.files + files.length ∧
      (files.foldl (fun s f => p.settledUnder m root f s) s).events.filterMap Event.processed? =
        s.events.filterMap Event.processed? ++ files.map (·.relativeTo root) := by
  induction files generalizing s with
  | nil => simp
  | cons path rest ih =>
    rw [turnsUnder, turnsBy, List.forall_mem_cons] at hends
    obtain ⟨⟨s₁, hs₁⟩, hrest⟩ := hends
    obtain ⟨hfiles, hevents⟩ := ih (p.settledUnder m root path s) hrest
    have hturn : (p.settledUnder m root path s).verdict.files = s.verdict.files + 1 ∧
        (p.settledUnder m root path s).events.filterMap Event.processed? =
          s.events.filterMap Event.processed? ++ [path.relativeTo root] := by
      cases hprocess : p.job.processUnder m (.ofPath root path) s.world with
      | ok ended =>
        rw [(visitUnder_of_ok hhooks hprocess).2, List.filterMap_append]
        exact ⟨rfl, rfl⟩
      | error h => simp [(visitUnder_of_error hhooks hprocess).1] at hs₁
    rw [List.foldl_cons, hfiles, hevents, hturn.1, hturn.2, List.length_cons, List.map_cons, List.append_assoc]
    exact ⟨by omega, rfl⟩

/-- A run goes along the files that a scan finds before it, and ends when the scan does and no turn stops it. -/
theorem runUnder_eq_ok_iff {w : World} (ht : w.tree.WellFormed) (hroot : root.IsPlain)
    (hexists : w.tree.isFile p.walk.work root = .ok true ∨ w.tree.isDirectory p.walk.work root = true) :
    ∃ found, p.walk.scan w.tree root = some found ∧ (∀ f ∈ found.files, f.IsPlain) ∧
      (∀ x ∈ p.turnsUnder m root found.files { world := w }, x.1.IsPlain ∧ x.2.world.tree.WellFormed) ∧
      ∀ s, p.runUnder m root w = .ok s ↔ found.failure = none ∧
        (∀ x ∈ p.turnsUnder m root found.files { world := w }, ¬ p.Escapes m root x) ∧
          found.files.foldl (fun s f => p.settledUnder m root f s) { world := w } = s := by
  have hkeeps : KeepsOutline (p.visitUnder m root) := keepsOutline_visitUnder hhooks hk
  obtain ⟨found, hscan, hplain, hfollow⟩ := hkeeps.run_eq_follow p.walk hroot ht hexists
  have hturns : ∀ x ∈ p.turnsUnder m root found.files { world := w }, x.1.IsPlain ∧ x.2.world.tree.WellFormed :=
    hkeeps.of_mem_turnsBy (s := { world := w }) hplain ht
  have hends : (∀ x ∈ p.turnsUnder m root found.files { world := w }, ∃ s', p.visitUnder m root x.1 x.2 = .ok s') ↔
      ∀ x ∈ p.turnsUnder m root found.files { world := w }, ¬ p.Escapes m root x :=
    forall₂_congr fun x hx => visitUnder_eq_ok_iff hhooks hk (hturns x hx).1 (hturns x hx).2
  refine ⟨found, hscan, hplain, hturns, fun s => ?_⟩
  rw [runUnder, hfollow, follow_eq_ok_iff, ← hends]
  rfl

end Turns
end Plan

/-- A run over a file or a directory, with tasks that may report, answer and fail as they like, whatever goes wrong. Without
mishaps it is the run as it is described elsewhere.

It goes along the files that a scan finds at the start, and it ends without a failure exactly when the scan does and no turn
stops it. A turn does so when the content that is to be written is a text without bytes, and when the run has something to
report itself and cannot: that the file cannot be read or written, or how a task has ended. If all findings are printed and
all failures have words, a text without bytes is the only reason. When the run ends without a failure, every file found has
been processed, in order, and those that could not be read or written are among those that failed, each with an error
reported.

Whenever it happens, a file that fails leaves the tree as it was, and other files are processed after it as they are in
that tree when nothing else has happened. Unless it stops the run, it is reported and among those that failed. -/
theorem run_isolates_failures (p : Plan) (m : Mishaps) (root : Path) (w : World) (hhooks : p.hooks.KeepTree)
    (hk : ∀ t ∈ p.tasks, t.KeepsTree) (ht : w.tree.WellFormed) (hroot : root.IsPlain)
    (hexists : w.tree.isFile p.walk.work root = .ok true ∨ w.tree.isDirectory p.walk.work root = true) :
    p.runUnder {} root w = p.run root w ∧
    ∃ found, p.walk.scan w.tree root = some found ∧
      ((∃ s, p.runUnder m root w = .ok s) ↔
        found.failure = none ∧ ∀ x ∈ p.turnsUnder m root found.files { world := w }, ¬ p.Escapes m root x) ∧
      ((∀ f, m.unprinted f = none) → (∀ f, m.wordless f = none) →
        ∀ x, p.Escapes m root x ↔ ∃ e, p.trouble? m root x = some (.unencodable e)) ∧
      (∀ s, p.runUnder m root w = .ok s →
        s.verdict.files = found.files.length ∧
          s.events.filterMap Event.processed? = found.files.map (·.relativeTo root) ∧
          ∀ x ∈ p.turnsUnder m root found.files { world := w }, ∀ t, p.trouble? m root x = some t →
            x.1.relativeTo root ∈ s.verdict.failed ∧ s.verdict.success = false ∧
              ∃ f ∈ s.world.reporter.findings, t.finding? (.ofPath root x.1) = some f ∧ f.level = .error ∧
                f.path = x.1.relativeTo root) ∧
      ∀ (path : Path) (s : State) (t : Trouble), path.IsPlain → s.world.tree.WellFormed →
        p.trouble? m root (path, s) = some t →
          (p.settledUnder m root path s).world.tree = s.world.tree ∧
            (∀ r, p.job.processUnder m r (p.settledUnder m root path s).world =
              Job.after (p.settledUnder m root path s).world (p.job.processUnder m r { tree := s.world.tree })) ∧
            (¬ p.Escapes m root (path, s) → ∃ s', p.visitUnder m root path s = .ok s' ∧
              path.relativeTo root ∈ s'.verdict.failed ∧ s'.verdict.success = false ∧
                ∃ f ∈ s'.world.reporter.findings, t.finding? (.ofPath root path) = some f ∧ f.level = .error ∧
                  f.path = path.relativeTo root) := by
  have hhooks := hhooks.eq_default
  obtain ⟨found, hscan, hplain, hturns, hok⟩ := Plan.runUnder_eq_ok_iff (m := m) hhooks hk ht hroot hexists
  refine ⟨by rw [p.runUnder_calm], found, hscan, ?_, fun hprinted hwords x => Job.escapes_iff_of_printed hprinted hwords,
    fun s hs => ?_, fun path s t hpath hwf htrouble => ?_⟩
  · simp only [hok]
    exact ⟨fun ⟨s, hfailure, hall, _⟩ => ⟨hfailure, hall⟩, fun ⟨hfailure, hall⟩ => ⟨_, hfailure, hall, rfl⟩⟩
  · obtain ⟨-, hall, rfl⟩ := (hok s).1 hs
    obtain ⟨-, hext⟩ := Plan.extends_of_mem_turnsUnder hhooks hk found.files hplain (s := { world := w }) ht
    have hends : ∀ x ∈ p.turnsUnder m root found.files { world := w }, ∃ s', p.visitUnder m root x.1 x.2 = .ok s' :=
      fun x hx => (Plan.visitUnder_eq_ok_iff hhooks hk (hturns x hx).1 (hturns x hx).2).2 (hall x hx)
    obtain ⟨hfiles, hevents⟩ := Plan.counts_of_turnsUnder hhooks found.files { world := w } hends
    refine ⟨by simpa using hfiles, by simpa using hevents, fun x hx t htrouble => ?_⟩
    obtain ⟨s', hvisit, hfailed, hsuccess, f, hf, hfinding⟩ :=
      Plan.visitUnder_of_trouble hhooks hk (hturns x hx).1 (hturns x hx).2 htrouble (hall x hx)
    have hext := hext x hx
    rw [Plan.settledUnder, settledBy_of_ok hvisit] at hext
    exact ⟨hext.failed.subset hfailed, hext.success hsuccess, f, hext.findings.subset hf, hfinding⟩
  · have htree := Plan.tree_settledUnder_of_trouble hhooks hk hpath hwf htrouble
    refine ⟨htree, fun r => ?_, fun hends => Plan.visitUnder_of_trouble hhooks hk hpath hwf htrouble hends⟩
    rw [← htree]
    exact p.job.processUnder_eq_after m r _

namespace IsolationWitness

/-- Answers with a surrogate that stands for no byte. -/
def breaks : Task := ⟨"breaks", none, fun _ _ => ⟨[], .text [.ofNat 0xD800]⟩⟩

/-- Answers with nothing. -/
def clears : Task := ⟨"clears", none, fun _ _ => ⟨[], .text []⟩⟩

theorem keepsTree_breaks : ∀ t ∈ [breaks], t.KeepsTree := by
  simp [Task.KeepsTree, breaks]

theorem keepsTree_clears : ∀ t ∈ [clears], t.KeepsTree := by
  simp [Task.KeepsTree, clears]

/-- A walk that accepts every name. -/
def walk : Walk := ⟨.ofList ["*"], .ofList [], false, []⟩

/-- The root of the runs. -/
def root : Path := .ofText "/r"

/-- A directory with a link between two files; the name that it leads to is too long for the system. -/
def linked : World where
  tree := ⟨[(["r"], .directory), (["r", "a.txt"], .file 0o644 [0x78, 0x20, 0x0A]),
    (["r", "l.txt"], .link (List.replicate 256 ('a' : CodePoint))), (["r", "m.txt"], .file 0o644 [0x79, 0x20, 0x0A])]⟩

/-- A directory with one file. -/
def single : World where
  tree := ⟨[(["r"], .directory), (["r", "a.txt"], .file 0o644 [0x78, 0x0A])]⟩

/-- A directory with two files. -/
def pair : World where
  tree := ⟨[(["r"], .directory), (["r", "a.txt"], .file 0o644 [0x78]), (["r", "b.txt"], .file 0o644 [0x79, 0x7A])]⟩

/-- The first file must not be read, and there is no room for the content of the second beyond its first byte. -/
def mishaps : Mishaps where
  unread r := if r.relative = "a.txt" then some (.other 13 "Permission denied") else none
  faults _
    | .fill _ _ => some ⟨.other 28 "No space left on device", 1⟩
    | _ => none

set_option maxRecDepth 4000 in
theorem scan_linked :
    walk.scan linked.tree root = some ⟨[root.child "a.txt"], some ⟨root.child "l.txt", .nameTooLong⟩⟩ := by
  cbv

theorem scan_single : walk.scan single.tree root = some ⟨[root.child "a.txt"], none⟩ := by
  cbv

theorem scan_pair : walk.scan pair.tree root = some ⟨[root.child "a.txt", root.child "b.txt"], none⟩ := by
  cbv

theorem trouble?_single :
    Plan.trouble? ⟨walk, [breaks], false, {}⟩ {} root (root.child "a.txt", { world := single }) =
      some (.unencodable ⟨0, .ofNat 0xD800, 0⟩) := by
  cbv

/-- What the files of the pair fail for. -/
def troubles : List (Option Trouble) :=
  [some (.unread (.other 13 "Permission denied")), some (.unwritten (.other 28 "No space left on device"))]

set_option maxRecDepth 4000 in
theorem troubles_pair :
    (Plan.turnsUnder ⟨walk, [clears], false, {}⟩ mishaps root [root.child "a.txt", root.child "b.txt"]
      { world := pair }).map (Plan.trouble? ⟨walk, [clears], false, {}⟩ mishaps root) = troubles := by
  cbv

end IsolationWitness

open IsolationWitness in
/-- Two runs without mishaps that are stopped. In the first the walk comes to a link whose target has too long a name, and
then no tasks help, and neither does leaving all fixes unwritten: the file after the link is never processed. In the second
a task answers with a text without bytes. -/
theorem runs_stopped :
    (linked.tree.WellFormed ∧ linked.tree.isDirectory [] root = true ∧
      ∀ tasks readOnly, (∀ t ∈ tasks, t.KeepsTree) → ∀ s, Plan.run ⟨walk, tasks, readOnly, {}⟩ root linked ≠ .ok s) ∧
    single.tree.WellFormed ∧ single.tree.isDirectory [] root = true ∧ (∀ t ∈ [breaks], t.KeepsTree) ∧
      ∀ s, Plan.run ⟨walk, [breaks], false, {}⟩ root single ≠ .ok s := by
  have hlinked : linked.tree.WellFormed := by decide +kernel
  have hlinkedDirectory : linked.tree.isDirectory [] root = true := by set_option maxRecDepth 4000 in cbv
  have hsingle : single.tree.WellFormed := by decide +kernel
  have hsingleDirectory : single.tree.isDirectory [] root = true := by set_option maxRecDepth 4000 in cbv
  have hroot : root.IsPlain := Path.isPlain_ofText _
  refine ⟨⟨hlinked, hlinkedDirectory, fun tasks readOnly hk s hs => ?_⟩, hsingle, hsingleDirectory, keepsTree_breaks,
    fun s hs => ?_⟩
  · obtain ⟨found, hscan, -, -, hok⟩ := Plan.runUnder_eq_ok_iff (p := ⟨walk, tasks, readOnly, {}⟩) (m := {}) rfl hk hlinked
      hroot (.inr hlinkedDirectory)
    cases scan_linked.symm.trans hscan
    rw [← Plan.runUnder_calm] at hs
    cases ((hok s).1 hs).1
  · obtain ⟨found, hscan, -, -, hok⟩ := Plan.runUnder_eq_ok_iff (p := ⟨walk, [breaks], false, {}⟩) (m := {}) rfl
      keepsTree_breaks hsingle hroot (.inr hsingleDirectory)
    cases scan_single.symm.trans hscan
    rw [← Plan.runUnder_calm] at hs
    exact ((hok s).1 hs).2.1 _ List.mem_cons_self (.unencodable trouble?_single)

open IsolationWitness in
/-- The system refuses to read the first file and to take the content of the second: the run ends, and both are among those
that failed. -/
theorem run_isolates_witness :
    (Plan.hooks ⟨walk, [clears], false, {}⟩).KeepTree ∧ pair.tree.WellFormed ∧ root.IsPlain ∧ (∀ t ∈ [clears], t.KeepsTree) ∧
      pair.tree.isDirectory [] root = true ∧
      ∃ s, Plan.runUnder ⟨walk, [clears], false, {}⟩ mishaps root pair = .ok s ∧ s.verdict.files = 2 ∧
        (root.child "a.txt").relativeTo root ∈ s.verdict.failed ∧ (root.child "b.txt").relativeTo root ∈ s.verdict.failed := by
  have hwf : pair.tree.WellFormed := by decide +kernel
  have hroot : root.IsPlain := Path.isPlain_ofText _
  have hdirectory : pair.tree.isDirectory [] root = true := by cbv
  obtain ⟨-, found, hscan, hends, hescapes, hok, -⟩ := run_isolates_failures ⟨walk, [clears], false, {}⟩ mishaps root pair
    Hooks.keepTree_default keepsTree_clears hwf hroot (.inr hdirectory)
  cases scan_pair.symm.trans hscan
  have hescapes := hescapes (fun _ => rfl) (fun _ => rfl)
  have htroubles := troubles_pair
  rw [Plan.turnsUnder, turnsBy, turnsBy, turnsBy, List.map_cons, List.map_cons, List.map_nil, troubles] at htroubles
  rw [Plan.turnsUnder, turnsBy, turnsBy, turnsBy] at hends hok
  simp only [List.cons.injEq, and_true] at htroubles
  obtain ⟨hfirst, hsecond⟩ := htroubles
  simp only [List.forall_mem_cons, List.not_mem_nil, false_implies, implies_true, and_true, hescapes, hfirst, hsecond,
    Option.some.injEq, reduceCtorEq, exists_false, not_false_eq_true, iff_true] at hends hok
  obtain ⟨s, hs⟩ := hends
  obtain ⟨hfiles, -, ha, hb⟩ := hok s hs
  exact ⟨Hooks.keepTree_default, hwf, hroot, keepsTree_clears, hdirectory, s, hs, hfiles, (ha _ rfl).1, (hb _ rfl).1⟩

end SourceTidy.Run
