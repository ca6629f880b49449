import Mathlib
import SourceTidy.Cli.Run
import SourceTidy.Proofs.Report.Printed
import SourceTidy.Proofs.Run.Counts

/-!
# The exit status of a check

A check is a run whose findings are printed while they come. It goes through the states of the run as long as it can print
what it has to (`run_of_walk` and `walk_of_run`), and the lines that it prints in the end can always be printed. So a check
that comes to its end has the verdict of the run, which tells its exit status; every other check ends with the status for
findings.
-/

namespace SourceTidy.Cli

open SourceTidy.Config (Settings)
open SourceTidy.Run (Plan State)

/-! ## Printing -/

/-- Texts that can all be printed. -/
def Printable (ts : List Text) : Prop := ∀ t ∈ ts, Utf8.surrogates? t = none

theorem printable_append {ts us : List Text} : Printable (ts ++ us) ↔ Printable ts ∧ Printable us :=
  List.forall_mem_append

namespace Screen

theorem print_of_printable {s : Screen} {t : Text} (hs : s.failure = none) (ht : Utf8.surrogates? t = none) :
    s.print t = { s with text := s.text ++ t } := by
  simp [print, hs, ht]

/-- After a failure nothing is printed. -/
theorem printAll_of_failure {s : Screen} {e : Utf8.EncodeError} (hs : s.failure = some e) (ts : List Text) :
    s.printAll ts = s := by
  induction ts with
  | nil => rfl
  | cons t rest ih =>
    have hprint : s.print t = s := by simp [print, hs]
    rw [printAll, List.foldl_cons, hprint]
    exact ih

/-- Texts are printed without a failure exactly when all of them can be printed. -/
theorem printAll_failure_eq_none_iff {s : Screen} (hs : s.failure = none) (ts : List Text) :
    (s.printAll ts).failure = none ↔ Printable ts := by
  induction ts generalizing s with
  | nil => simp [printAll, hs, Printable]
  | cons t rest ih =>
    rw [printAll, List.foldl_cons, Printable, List.forall_mem_cons]
    cases ht : Utf8.surrogates? t with
    | none =>
      have hprint := print_of_printable hs ht
      have hrest := ih (s := s.print t) (by rw [hprint]; exact hs)
      rw [printAll] at hrest
      simp only [hrest, true_and, Printable]
    | some e =>
      have hfailure : (s.print t).failure = some e := by simp [print, hs, ht]
      have hstays := printAll_of_failure hfailure rest
      rw [printAll] at hstays
      simp [hstays, hfailure]

end Screen

/-- The lines of the findings of a state. -/
def findingLines (s : State) : List Text := s.world.reporter.findings.map fun f => (f.styled .usual false).printed

/-- The lines of a later state are those of an earlier one and the new ones. -/
theorem findingLines_eq {is : List Run.Incident} {s s' : State} (h : s.world.Gains is s'.world) :
    findingLines s' = findingLines s ++ linesSince s s' := by
  obtain ⟨fs, hfs, -⟩ := h
  have hdrop : s'.world.reporter.findings.drop s.world.reporter.total = fs := by
    rw [hfs, Reporter.total, List.drop_left]
  rw [linesSince, hdrop, findingLines, findingLines, hfs, List.map_append]

theorem isClean_summary (r : Reporter) : r.summary.IsClean := by
  refine Text.IsClean.join (Text.isClean_ofString _) ?_
  intro t ht
  obtain ⟨l, -, rfl⟩ := List.mem_map.1 ht
  simp

/-- What is printed after a run can be printed: it is made of strings and numbers. -/
theorem printable_closingLines (s : Settings) (r : Reporter) (v : Run.Verdict) : Printable (closingLines s r v) := by
  have hline (status : Report.Status) {message : Text} (h : message.IsClean) :
      Printable [status.line s.output.emoji message] :=
    List.forall_mem_singleton.2 ((Utf8.surrogates?_eq_none_iff _).2 (Report.Status.isClean_line status _ h))
  have hnone : Printable [] := fun t ht => absurd ht List.not_mem_nil
  unfold closingLines
  simp only [printable_append]
  refine ⟨⟨⟨⟨hline _ (by simp), ?summary⟩, ?warnings⟩, ?rewritten⟩, ?verdict⟩
  case summary =>
    split
    · exact hnone
    · exact hline _ (by simp [isClean_summary])
  case warnings =>
    split
    · exact hnone
    · exact hline _ (by simp)
  case rewritten =>
    split
    · exact hnone
    · exact hline _ (by simp)
  case verdict =>
    have hhint : Text.IsClean (if s.readOnly then " (run with --fix to correct fixable findings)" else [] : Text) := by
      split <;> simp
    split
    · exact hline _ (by simp)
    · exact hline _ (by simp [hhint])

/-! ## The walk of a check -/

section Walk

variable (p : Plan) (root : Path)

/-- A file is done with when it has been processed and its findings can be printed. -/
theorem visit_eq_ok_iff {path : Path} {o o' : Ongoing} (hscreen : o.screen.failure = none) :
    visit p root path o = .ok o' ↔
      p.visit root path o.state = .ok o'.state ∧ o'.screen = o.screen.printAll (linesSince o.state o'.state) ∧
        Printable (linesSince o.state o'.state) := by
  unfold visit
  obtain ⟨state', screen'⟩ := o'
  cases hvisit : p.visit root path o.state with
  | error e => simp
  | ok state =>
    have hprint := Screen.printAll_failure_eq_none_iff hscreen (linesSince o.state state)
    simp only [Except.ok.injEq]
    cases hfailure : (o.screen.printAll (linesSince o.state state)).failure with
    | none =>
      have hprintable := hprint.1 hfailure
      simp only [Except.ok.injEq, Ongoing.mk.injEq]
      constructor
      · rintro ⟨rfl, rfl⟩
        exact ⟨rfl, rfl, hprintable⟩
      · rintro ⟨rfl, rfl, -⟩
        exact ⟨rfl, rfl⟩
    | some e =>
      simp only [reduceCtorEq, false_iff]
      rintro ⟨rfl, -, hprintable⟩
      rw [hprint.2 hprintable] at hfailure
      cases hfailure

/-- A check goes through the states of a run. -/
theorem simulates_visit (path : Path) :
    Simulates (fun _ => True) (fun (o : Ongoing) s => o.state = s ∧ o.screen.failure = none ∧ Printable (findingLines s))
      (visit p root path) (p.visit root path) := by
  refine ⟨fun _ _ _ _ => trivial, ?_⟩
  rintro o o' s ⟨rfl, hscreen, hlines⟩ ho -
  obtain ⟨hvisit, hprinted, hnew⟩ := (visit_eq_ok_iff p root hscreen).1 ho
  refine ⟨o'.state, hvisit, rfl, ?_, ?_⟩
  · rw [hprinted]
    exact (Screen.printAll_failure_eq_none_iff hscreen _).2 hnew
  · rw [findingLines_eq (p.gains_visit root hvisit).world]
    exact printable_append.2 ⟨hlines, hnew⟩

/-- A run whose findings can be printed goes through the states of a check. -/
theorem visit_simulates (path : Path) :
    Simulates (fun s => Printable (findingLines s)) (fun s (o : Ongoing) => o.state = s ∧ o.screen.failure = none)
      (p.visit root path) (visit p root path) := by
  constructor
  · intro s s' hs hlines
    rw [findingLines_eq (p.gains_visit root hs).world] at hlines
    exact (printable_append.1 hlines).1
  · rintro s s' o ⟨rfl, hscreen⟩ hs hlines
    rw [findingLines_eq (p.gains_visit root hs).world] at hlines
    have hnew := (printable_append.1 hlines).2
    refine ⟨⟨s', o.screen.printAll (linesSince o.state s')⟩, ?_, rfl, ?_⟩
    · exact (visit_eq_ok_iff p root hscreen).2 ⟨hs, rfl, hnew⟩
    · exact (Screen.printAll_failure_eq_none_iff hscreen _).2 hnew

variable {p root} {t : Tree} {opening : Screen} (hopening : opening.failure = none)
include hopening

/-- A check that comes to the end of its walk has run to the end, and printed all findings. -/
theorem run_of_walk {o : Ongoing}
    (h : p.walk.run (·.state.world.tree) (visit p root) root ⟨{ world := { tree := t } }, opening⟩ = .ok o) :
    p.run root { tree := t } = .ok o.state ∧ o.screen.failure = none ∧ Printable (findingLines o.state) := by
  have hwalk := Walk.simulates_run (simulates_visit p root) (fun o => o.state.world.tree) (fun s => s.world.tree)
    (fun o s hs => by rw [hs.1]) p.walk root
  have hstart : Printable (findingLines { world := { tree := t } }) := fun line hline => absurd hline List.not_mem_nil
  obtain ⟨s, hrun, rfl, hscreen, hlines⟩ := hwalk.forth _ _ _ ⟨rfl, hopening, hstart⟩ h trivial
  exact ⟨hrun, hscreen, hlines⟩

/-- A check comes to the end of its walk when the run ends and all its findings can be printed. -/
theorem walk_of_run {s : State} (h : p.run root { tree := t } = .ok s) (hlines : Printable (findingLines s)) :
    ∃ o, p.walk.run (·.state.world.tree) (visit p root) root ⟨{ world := { tree := t } }, opening⟩ = .ok o ∧
      o.state = s ∧ o.screen.failure = none := by
  have hwalk := Walk.simulates_run (visit_simulates p root) (fun s => s.world.tree) (fun o => o.state.world.tree)
    (fun s o ho => by rw [ho.1]) p.walk root
  exact hwalk.forth _ _ _ ⟨rfl, hopening⟩ h hlines

end Walk

/-! ## The exit status -/

/-- A check comes to its end when its heading can be printed, the run ends, and all findings can be printed; its exit status
is then that of the verdict. Every other check fails, with the status for findings. -/
theorem check_ends (h : Host) (o : Options) (st : Settings) :
    ((check h o st).failure = none ∧ Printable (openingLines o st) ∧
        ∃ s, (planFor h st).run o.path { tree := h.tree } = .ok s ∧ Printable (findingLines s) ∧
          (check h o st).exitCode = exitFor s.verdict) ∨
      ((check h o st).failure ≠ none ∧ (check h o st).exitCode = exitFindings ∧
        ¬ (Printable (openingLines o st) ∧
          ∃ s, (planFor h st).run o.path { tree := h.tree } = .ok s ∧ Printable (findingLines s))) := by
  have hopening := Screen.printAll_failure_eq_none_iff (s := {}) rfl (openingLines o st)
  unfold check
  cases hfailure : (({} : Screen).printAll (openingLines o st)).failure with
  | some e =>
    right
    simp only [hfailure]
    refine ⟨by simp [finished, hfailure], by simp [finished, hfailure], fun ⟨hprintable, _⟩ => ?_⟩
    rw [hopening.2 hprintable] at hfailure
    cases hfailure
  | none =>
    simp only [hfailure]
    cases hwalk : (planFor h st).walk.run (·.state.world.tree) (visit (planFor h st) o.path) o.path
        ⟨{ world := { tree := h.tree } }, ({} : Screen).printAll (openingLines o st)⟩ with
    | ok ongoing =>
      left
      obtain ⟨hrun, hscreen, hlines⟩ := run_of_walk hfailure hwalk
      have hend := (Screen.printAll_failure_eq_none_iff hscreen _).2
        (printable_closingLines st ongoing.state.world.reporter ongoing.state.verdict)
      simp only [finished, hend]
      exact ⟨trivial, hopening.1 hfailure, ongoing.state, hrun, hlines, rfl⟩
    | error e =>
      right
      have hnot : ¬ (Printable (openingLines o st) ∧
          ∃ s, (planFor h st).run o.path { tree := h.tree } = .ok s ∧ Printable (findingLines s)) := by
        rintro ⟨-, s, hrun, hlines⟩
        obtain ⟨ongoing, hok, -⟩ := walk_of_run hfailure hrun hlines
        rw [hok] at hwalk
        cases hwalk
      cases e <;> exact ⟨by simp, rfl, hnot⟩

/-- What is reported in a run decides its verdict, and the exit status of a check.

When a run ends, whatever had been reported before, the count of every level has grown by the reports of its tasks with that
level; that of errors has also grown by one for each task that failed, each answer that is no text, each file that could not
be read, and each that could not be written. The run is a success exactly when the count of errors has not grown, and
neither has that of fixes if these stay unwritten.

A check comes to its end exactly when its run does, and the heading and all findings can be printed. Its exit status is zero
when it comes to its end with no error reported, and no fix that stays unwritten; otherwise it is one. -/
theorem reports_decide_verdict_and_exit_status :
    (∀ (p : Plan) (root : Path) (w : Run.World) (s : State), p.run root w = .ok s →
      (∀ l, s.world.reporter.count l = w.reporter.count l +
        ((p.incidents root w).count (.report l) +
          if l = .error then
            (p.incidents root w).count .raised + (p.incidents root w).count .nonText +
              (p.incidents root w).count .unread + (p.incidents root w).count .unwritten
          else 0)) ∧
      (s.verdict.success = true ↔
        s.world.reporter.count .error = w.reporter.count .error ∧
          (p.readOnly = true → s.world.reporter.count .fix = w.reporter.count .fix))) ∧
    ∀ (h : Host) (o : Options) (st : Settings),
      ((check h o st).failure = none ↔
        Printable (openingLines o st) ∧
          ∃ s, (planFor h st).run o.path { tree := h.tree } = .ok s ∧ Printable (findingLines s)) ∧
      ((check h o st).exitCode = 0 ∨ (check h o st).exitCode = 1) ∧
      ((check h o st).exitCode = 0 ↔
        (check h o st).failure = none ∧
          ∃ s, (planFor h st).run o.path { tree := h.tree } = .ok s ∧ s.world.reporter.count .error = 0 ∧
            (st.readOnly = true → s.world.reporter.count .fix = 0)) := by
  constructor
  · intro p root w s hrun
    exact ⟨p.count_of_run root hrun, p.success_of_run root hrun⟩
  · intro h o st
    rcases check_ends h o st with ⟨hfailure, hopening, s, hrun, hlines, hexit⟩ | ⟨hfailure, hexit, hnot⟩
    · have hsuccess := (planFor h st).success_of_run o.path hrun
      have hstatus : (check h o st).exitCode = 0 ↔ s.verdict.success = true := by
        rw [hexit, exitFor]
        cases s.verdict.success <;> simp [exitOk, exitFindings]
      refine ⟨⟨fun _ => ⟨hopening, s, hrun, hlines⟩, fun _ => hfailure⟩, ?_, ?_⟩
      · rw [hexit, exitFor]
        cases s.verdict.success
        · exact .inr rfl
        · exact .inl rfl
      · rw [hstatus, hsuccess]
        constructor
        · intro hcounts
          exact ⟨hfailure, s, hrun, hcounts⟩
        · rintro ⟨-, s', hrun', hcounts⟩
          obtain rfl : s = s' := Except.ok.inj (hrun.symm.trans hrun')
          exact hcounts
    · refine ⟨⟨fun hnone => absurd hnone hfailure, fun hends => absurd hends hnot⟩, .inr hexit, ?_⟩
      rw [hexit]
      constructor
      · intro hzero
        cases hzero
      · rintro ⟨hnone, -⟩
        exact absurd hnone hfailure

namespace ExitWitness

/-- Warns of a file, and then fails. -/
def fails : Task := ⟨"fails", none, fun _ _ => ⟨[.report ⟨.warning, "odd", none⟩], .failed (.value none)⟩⟩

/-- Reports a fix, and answers with something that is no text. -/
def answers : Task := ⟨"answers", none, fun _ _ => ⟨[.report ⟨.fix, "mended", none⟩], .nonText .int⟩⟩

/-- The root of the runs. -/
def root : Path := .ofText "/r"

/-- A directory with one file. -/
def tree : Tree := ⟨[(["r"], .directory), (["r", "a.txt"], .file 0o644 [0x78, 0x20, 0x0A])]⟩

/-- A run of the two tasks. -/
def plan : Plan := ⟨⟨.ofList ["*"], .ofList [], false, []⟩, [fails, answers], true, {}⟩

/-- What has been reported before the run. -/
def before : Reporter := ⟨[⟨.error, "z.txt", "old", none, true⟩]⟩

/-- What is reported in the run. -/
def incidents : List Run.Incident := [.report .warning, .raised, .report .fix, .nonText]

/-- The world that the run ends in. -/
def left : Run.World where
  tree
  reporter := ⟨[⟨.error, "z.txt", "old", none, true⟩, ⟨.warning, "a.txt", "odd", none, true⟩,
    ⟨.error, "a.txt", "Task fails failed: ", none, true⟩, ⟨.fix, "a.txt", "mended", none, false⟩,
    ⟨.error, "a.txt", "Task answers returned int instead of text", none, true⟩]⟩

/-- How the run ends. -/
def ended : State where
  world := left
  verdict := { success := false, files := 1, failed := ["a.txt"] }
  events := [.before "a.txt" { tree, reporter := before }, .process "a.txt" { tree, reporter := before },
    .after "a.txt" false left]

theorem run_eq : plan.run root { tree, reporter := before } = .ok ended := by
  cbv

theorem incidents_eq : plan.incidents root { tree, reporter := before } = incidents := by
  cbv

/-- Where a check runs. -/
def host : Host := { tree }

/-- What the check looks at. -/
def options : Options := { path := root }

/-- Settings under which blanks at line ends are found, and left. -/
def settings : Settings where
  discovery := { accept := ["*"], ignore := [] }
  tasks := { skip := (Task.Builtin.all.filter (· != .trailingBlanks)).map (·.name) }

/-- The world that the run of the check ends in. -/
def found : Run.World := { tree, reporter := ⟨[⟨.fix, "a.txt", "1 bytes of whitespaces", none, false⟩]⟩ }

/-- How the run of the check ends. -/
def checked : State where
  world := found
  verdict := { success := false, files := 1, failed := ["a.txt"] }
  events := [.before "a.txt" { tree }, .process "a.txt" { tree }, .after "a.txt" false found]

set_option maxRecDepth 4000 in
theorem check_run_eq : (planFor host settings).run options.path { tree := host.tree } = .ok checked := by
  cbv

end ExitWitness

open ExitWitness in
/-- Two tasks that fail in a run, after an error that had been reported before; and a check that ends with a fix unwritten. -/
theorem reports_decide_witness :
    plan.run root { tree, reporter := before } = .ok ended ∧ ended.world.reporter.count .error = 3 ∧
      ended.verdict.success = false ∧
      (planFor host settings).run options.path { tree := host.tree } = .ok checked ∧
      (check host options settings).exitCode = 1 := by
  obtain ⟨hrun, hcheck⟩ := reports_decide_verdict_and_exit_status
  obtain ⟨hcount, hsuccess⟩ := hrun plan root { tree, reporter := before } ended run_eq
  obtain ⟨-, hstatus, hzero⟩ := hcheck host options settings
  have herrors : ended.world.reporter.count .error = 3 := by
    rw [hcount .error, incidents_eq]
    decide
  have hfailed : ended.verdict.success = false := by
    rw [Bool.eq_false_iff, ne_eq, hsuccess, herrors]
    decide
  refine ⟨run_eq, herrors, hfailed, check_run_eq, hstatus.resolve_left ?_⟩
  intro hexit
  obtain ⟨-, s, hs, -, hfix⟩ := hzero.1 hexit
  obtain rfl : checked = s := Except.ok.inj (check_run_eq.symm.trans hs)
  exact absurd (hfix rfl) (by decide)

end SourceTidy.Cli
