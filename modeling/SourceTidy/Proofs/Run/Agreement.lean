import SourceTidy.Proofs.Run.Commit
import SourceTidy.Proofs.Run.Visiting
import SourceTidy.Proofs.Task.Builtin
import SourceTidy.Proofs.Tree.Visits

/-!
# Checking and fixing agree

A run that only checks and one that fixes take different ways as soon as there is something to fix. When there is not, they
are the same run: a file is fine without fixes exactly when it is fine and not rewritten with them
(`process_readOnly_iff`), and as long as all files are, the two runs go through the same states.
-/

namespace SourceTidy

namespace Run

open SourceTidy.Task (Builtin)
open SourceTidy.Config (TaskOptions)

namespace Pass

/-- Tasks that all go wrong or answer with what they were given leave the content as it is. -/
theorem foldl_of_stays (c : Task.Context) (tasks : List Task) (hk : ∀ t ∈ tasks, t.KeepsTree) (p : Pass)
    (h : ∀ t ∈ tasks, t.goesWrong c p.content = true ∨ t.answer c p.content = p.content) :
    tasks.foldl (step c) p =
      ⟨p.world.add (tasks.flatMap fun t => findings c t p.content)
          (tasks.flatMap fun t => (t.handler c p.content).records c),
        p.content, p.hasError || tasks.any (·.goesWrong c p.content)⟩ := by
  induction tasks generalizing p with
  | nil => simp
  | cons t rest ih =>
    have hcontent : (p.step c t).content = p.content := by
      rw [step_eq c p (hk t List.mem_cons_self)]
      rcases h t List.mem_cons_self with h | h <;> simp [h]
    rw [List.foldl_cons, ih (fun u hu => hk u (List.mem_cons_of_mem t hu)) _ fun u hu => by
      rw [hcontent]
      exact h u (List.mem_cons_of_mem t hu), hcontent, step_eq c p (hk t List.mem_cons_self)]
    simp [Bool.or_assoc]

section Agree

variable (php : Php.Tokenizer) (bs : List Builtin) (path : Text) (p : Pass)

/-- The pass after tasks of this library. -/
def through (php : Php.Tokenizer) (bs : List Builtin) (c : Task.Context) (p : Pass) : Pass :=
  (bs.map (Builtin.taskWith php.tokens)).foldl (step c) p

theorem keepsTree_tasks : ∀ t ∈ bs.map (Builtin.taskWith php.tokens), t.KeepsTree := by
  rintro t ht
  obtain ⟨b, -, rfl⟩ := List.mem_map.1 ht
  exact Builtin.keepsTree php b

/-- What a task finds where nothing goes wrong without fixes are warnings, and it finds the same with them. -/
theorem findings_of_right {b : Builtin} {t : Text} (h : (b.taskWith php.tokens).goesWrong ⟨path, true⟩ t = false) :
    findings ⟨path, true⟩ (b.taskWith php.tokens) t = findings ⟨path, false⟩ (b.taskWith php.tokens) t ∧
      ∀ f ∈ findings ⟨path, true⟩ (b.taskWith php.tokens) t, f.level = .warning := by
  rw [Task.goesWrong_eq_any, List.any_eq_false] at h
  have hlevel : ∀ n ∈ (b.taskWith php.tokens).reports ⟨path, true⟩ t, n.level = .warning := by
    intro n hn
    have := h n hn
    cases hn : n.level <;> simp_all [isFatal]
  unfold findings
  rw [Builtin.reports_context php b ⟨path, false⟩ ⟨path, true⟩ t]
  refine ⟨List.map_congr_left fun n hn => ?_, fun f hf => ?_⟩
  · simp [findingOf, hlevel n hn]
  · obtain ⟨n, hn, rfl⟩ := List.mem_map.1 hf
    exact hlevel n hn

/-- Where nothing goes wrong without fixes, the passes with and without them are the same. -/
theorem through_of_right (h : ∀ b ∈ bs, (b.taskWith php.tokens).goesWrong ⟨path, true⟩ p.content = false)
    (hp : p.hasError = false) :
    through php bs ⟨path, false⟩ p = through php bs ⟨path, true⟩ p ∧
      (through php bs ⟨path, true⟩ p).hasError = false ∧ (through php bs ⟨path, true⟩ p).content = p.content ∧
      ∃ new, (through php bs ⟨path, true⟩ p).world.reporter.findings = p.world.reporter.findings ++ new ∧
        ∀ f ∈ new, f.level = .warning := by
  have hright (b : Builtin) (hb : b ∈ bs) :=
    (Builtin.goesWrong_readOnly_eq_false_iff php b path p.content ⟨path, true⟩).1 (h b hb)
  have hk := keepsTree_tasks php bs
  have hstays (c : Task.Context) : ∀ t ∈ bs.map (Builtin.taskWith php.tokens), t.goesWrong c p.content = true ∨
      t.answer c p.content = p.content := by
    rintro t ht
    obtain ⟨b, hb, rfl⟩ := List.mem_map.1 ht
    rw [Builtin.answer_context php b c ⟨path, true⟩]
    exact .inr (hright b hb).2
  have hrecords (c : Task.Context) (b : Builtin) : ((b.taskWith php.tokens).handler c p.content).records c = [] :=
    Builtin.records_eq_nil php b c p.content
  have hgood (readOnly : Bool) :
      (bs.map (Builtin.taskWith php.tokens)).any (·.goesWrong ⟨path, readOnly⟩ p.content) = false := by
    rw [List.any_eq_false]
    rintro t ht
    obtain ⟨b, hb, rfl⟩ := List.mem_map.1 ht
    cases readOnly
    · simp [(hright b hb).1]
    · simp [h b hb]
  have hfindings : bs.flatMap (fun b => findings ⟨path, false⟩ (b.taskWith php.tokens) p.content) =
      bs.flatMap fun b => findings ⟨path, true⟩ (b.taskWith php.tokens) p.content :=
    List.flatMap_congr fun b hb => (findings_of_right php path (h b hb)).1.symm
  unfold through
  rw [foldl_of_stays _ _ hk p (hstays ⟨path, true⟩), foldl_of_stays _ _ hk p (hstays ⟨path, false⟩), hgood, hgood, hp]
  simp only [List.flatMap_map, hrecords, hfindings, true_and]
  refine ⟨rfl, _, rfl, fun f hf => ?_⟩
  obtain ⟨b, hb, hf⟩ := List.mem_flatMap.1 hf
  exact (findings_of_right php path (h b hb)).2 f hf

/-- Without fixes, a task goes wrong or answers with what it was given. -/
theorem stays_of_readOnly (t : Text) : ∀ u ∈ bs.map (Builtin.taskWith php.tokens),
    u.goesWrong ⟨path, true⟩ t = true ∨ u.answer ⟨path, true⟩ t = t := by
  rintro u hu
  obtain ⟨b, -, rfl⟩ := List.mem_map.1 hu
  cases hwrong : (b.taskWith php.tokens).goesWrong ⟨path, true⟩ t with
  | true => exact .inl rfl
  | false => exact .inr ((Builtin.goesWrong_readOnly_eq_false_iff php b path t ⟨path, true⟩).1 hwrong).2

/-- A pass that ends well without fixes leaves nothing wrong at any task. -/
theorem right_of_readOnly (h : (through php bs ⟨path, true⟩ p).hasError = false) :
    ∀ b ∈ bs, (b.taskWith php.tokens).goesWrong ⟨path, true⟩ p.content = false := by
  rw [through, foldl_of_stays _ _ (keepsTree_tasks php bs) p (stays_of_readOnly php bs path p.content),
    Bool.or_eq_false_iff, List.any_map, List.any_eq_false] at h
  exact fun b hb => Bool.not_eq_true _ ▸ h.2 b hb

/-- A pass that ends well makes of a content what its tasks make of it. -/
theorem content_of_through (c : Task.Context) {p : Pass} (hp : p.hasError = false)
    (h : (through php bs c p).hasError = false) :
    (through php bs c p).content = Builtin.answerAll php c bs p.content := by
  obtain ⟨hwrong, hcontent⟩ := foldl_eq_answerAll c _ (keepsTree_tasks php bs) p hp
  have hnone : firstWrong c p (bs.map (Builtin.taskWith php.tokens)) = none := by
    rwa [through, hwrong, Option.isSome_eq_false_iff, Option.isNone_iff_eq_none] at h
  rwa [rightCount, hnone, Option.getD_none, List.take_length] at hcontent

/-- A pass that ends well with fixes, and with the content that it started from, leaves nothing wrong at any task even
without them. -/
theorem right_of_kept (hbs : bs.Nodup) (hp : p.hasError = false) (h : (through php bs ⟨path, false⟩ p).hasError = false)
    (hcontent : (through php bs ⟨path, false⟩ p).content = p.content) :
    ∀ b ∈ bs, (b.taskWith php.tokens).goesWrong ⟨path, true⟩ p.content = false := by
  have hk := keepsTree_tasks php bs
  have hfinal := content_of_through php bs ⟨path, false⟩ hp h
  have hanswers : ∀ b ∈ bs, (b.taskWith php.tokens).answer ⟨path, false⟩ p.content = p.content :=
    Builtin.answer_eq_of_answerAll_eq php ⟨path, false⟩ hbs (hfinal.symm.trans hcontent)
  have hstays : ∀ t ∈ bs.map (Builtin.taskWith php.tokens),
      t.goesWrong ⟨path, false⟩ p.content = true ∨ t.answer ⟨path, false⟩ p.content = p.content := by
    rintro t ht
    obtain ⟨b, hb, rfl⟩ := List.mem_map.1 ht
    exact .inr (hanswers b hb)
  rw [through, foldl_of_stays _ _ hk p hstays, Bool.or_eq_false_iff, List.any_map, List.any_eq_false] at h
  exact fun b hb => (Builtin.goesWrong_readOnly_eq_false_iff php b path p.content ⟨path, false⟩).2
    ⟨Bool.not_eq_true _ ▸ h.2 b hb, hanswers b hb⟩

end Agree
end Pass

/-! ## Files -/

/-- What is done with every file when the tasks of this library run under some options. -/
def Job.builtin (php : Php.Tokenizer) (o : TaskOptions) (work : Location) (readOnly : Bool) : Job :=
  ⟨Builtin.selectedWith php.tokens o, readOnly, work⟩

/-- The tasks of this library that look at files of a name under some options. -/
def lookingAt (o : TaskOptions) (name : Text) : List Builtin :=
  (Builtin.all.filter fun b => !o.skip.contains b.name && b.isWanted o).filter fun b => b.task.looksAt name

theorem lookingAt_nodup (o : TaskOptions) (name : Text) : (lookingAt o name).Nodup := by
  have hall : Builtin.all.Nodup := by decide
  exact (hall.filter _).filter _

section Files

variable (php : Php.Tokenizer) (o : TaskOptions) (work : Location) (r : Record) (w w' : World)

theorem Job.pass_builtin (readOnly : Bool) (content : Text) :
    (Job.builtin php o work readOnly).pass r w content =
      Pass.through php (lookingAt o r.path.name) ⟨r.relative, readOnly⟩ ⟨w, content, false⟩ := by
  simp only [Job.pass, Job.builtin, Pass.run, Pass.through, Builtin.selectedWith, lookingAt, List.filter_map]
  rfl

/-- A pass of tasks of this library leaves the tree as it is. -/
theorem Job.tree_pass_builtin (readOnly : Bool) (content : Text) :
    ((Job.builtin php o work readOnly).pass r w content).world.tree = w.tree := by
  rw [Job.pass_builtin, Pass.through, Pass.foldl_world _ _ (Pass.keepsTree_tasks php _), World.add_tree]

/-- A file that is fine without fixes ends the same with them, and what is found in it are warnings. -/
theorem process_of_readOnly
    (h : (Job.builtin php o work true).process r w = .ok (w', ⟨true, false⟩)) :
    (Job.builtin php o work false).process r w = .ok (w', ⟨true, false⟩) ∧
      ∃ new, w'.reporter.findings = w.reporter.findings ++ new ∧ ∀ f ∈ new, f.level = .warning := by
  cases hread : w.tree.read work r.path with
  | error e =>
    rw [Job.process_of_unread _ r w hread] at h
    simp at h
  | ok bytes =>
    rw [Job.process_of_kept _ r w hread (.inr rfl), Job.pass_builtin] at h
    simp only [Except.ok.injEq, Prod.mk.injEq, Result.mk.injEq, Bool.not_eq_true', and_true] at h
    obtain ⟨rfl, herror⟩ := h
    obtain ⟨hsame, -, hkept, hfindings⟩ :=
      Pass.through_of_right php _ r.relative _ (Pass.right_of_readOnly php _ _ _ herror) rfl
    have hfix : ((Job.builtin php o work false).pass r w (Utf8.decode bytes)).content = Utf8.decode bytes := by
      rw [Job.pass_builtin, hsame, hkept]
    rw [Job.process_of_kept _ r w hread (.inl hfix), Job.pass_builtin, hsame, herror]
    exact ⟨rfl, hfindings⟩

/-- A file that is fine with fixes and not rewritten ends the same without them. -/
theorem process_of_unwritten
    (h : (Job.builtin php o work false).process r w = .ok (w', ⟨true, false⟩)) :
    (Job.builtin php o work true).process r w = .ok (w', ⟨true, false⟩) := by
  cases hread : w.tree.read work r.path with
  | error e =>
    rw [Job.process_of_unread _ r w hread] at h
    simp at h
  | ok bytes =>
    have hkept : ((Job.builtin php o work false).pass r w (Utf8.decode bytes)).content = Utf8.decode bytes := by
      by_contra hchanged
      rw [Job.process_of_changed _ r w hread hchanged rfl, Job.writeBack] at h
      split at h <;> simp at h
    rw [Job.process_of_kept _ r w hread (.inl hkept)] at h
    rw [Job.pass_builtin] at h hkept
    simp only [Except.ok.injEq, Prod.mk.injEq, Result.mk.injEq, Bool.not_eq_true', and_true] at h
    obtain ⟨rfl, herror⟩ := h
    obtain ⟨hsame, -, -, -⟩ := Pass.through_of_right php _ r.relative _
      (Pass.right_of_kept php _ _ _ (lookingAt_nodup o r.path.name) rfl herror hkept) rfl
    rw [Job.process_of_kept _ r w hread (.inr rfl), Job.pass_builtin, ← hsame, herror]
    rfl

/-- A file that can be read is fine with fixes and not rewritten if and only if nothing goes wrong at any task without
them. -/
theorem process_unwritten_iff {bytes : Bytes} (hread : w.tree.read work r.path = .ok bytes) :
    (∃ w', (Job.builtin php o work false).process r w = .ok (w', ⟨true, false⟩)) ↔
      ∀ b ∈ lookingAt o r.path.name, (b.taskWith php.tokens).goesWrong ⟨r.relative, true⟩ (Utf8.decode bytes) = false := by
  constructor
  · rintro ⟨w', h⟩
    have h := process_of_unwritten php o work r w w' h
    rw [Job.process_of_kept _ r w hread (.inr rfl), Job.pass_builtin] at h
    simp only [Except.ok.injEq, Prod.mk.injEq, Result.mk.injEq, Bool.not_eq_true', and_true] at h
    exact Pass.right_of_readOnly php _ _ _ h.2
  · intro h
    obtain ⟨hsame, herror, hkept, -⟩ := Pass.through_of_right php _ r.relative ⟨w, Utf8.decode bytes, false⟩ h rfl
    have hfix : ((Job.builtin php o work false).pass r w (Utf8.decode bytes)).content = Utf8.decode bytes := by
      rw [Job.pass_builtin, hsame, hkept]
    rw [Job.process_of_kept _ r w hread (.inl hfix), Job.pass_builtin, hsame, herror]
    exact ⟨_, rfl⟩

/-- A job of tasks of this library does not touch the tree but by writing back. -/
theorem tree_of_unwritten (h : (Job.builtin php o work false).process r w = .ok (w', ⟨true, false⟩)) :
    w'.tree = w.tree := by
  have h := process_of_unwritten php o work r w w' h
  cases hread : w.tree.read work r.path with
  | error e =>
    rw [Job.process_of_unread _ r w hread] at h
    simp at h
  | ok bytes =>
    rw [Job.process_of_kept _ r w hread (.inr rfl)] at h
    simp only [Except.ok.injEq, Prod.mk.injEq] at h
    rw [← h.1]
    exact Job.tree_pass_builtin php o work r w true (Utf8.decode bytes)

end Files

/-! ## Runs -/

/-- A state in which nothing is wrong with any file, and no file has been rewritten. -/
def State.Untouched (s : State) : Prop := s.verdict.success = true ∧ s.verdict.rewritten = []

section Runs

variable (p : Plan) (hhooks : p.hooks = {}) (root path : Path) {s s' : State}
include hhooks

/-- A turn leaves nothing wrong and nothing rewritten if and only if this was so before, and the file is fine. -/
theorem visit_untouched_iff :
    p.visit root path s = .ok s' ∧ s'.Untouched ↔
      s.Untouched ∧ ∃ w', p.job.process (.ofPath root path) s.world = .ok (w', ⟨true, false⟩) ∧
        s' = ⟨w', s.verdict.add (.ofPath root path) ⟨true, false⟩,
          s.events ++ [.before (path.relativeTo root) s.world, .process (path.relativeTo root) s.world,
            .after (path.relativeTo root) true w']⟩ := by
  cases hprocess : p.job.process (.ofPath root path) s.world with
  | error e => simp [Plan.visit_of_unwritable root hhooks hprocess]
  | ok ended =>
    obtain ⟨w', ⟨ok, rewritten⟩⟩ := ended
    rw [Plan.visit_of_process root hhooks hprocess]
    constructor
    · rintro ⟨h, hsuccess, hrewritten⟩
      cases h
      cases rewritten <;> simp [Verdict.add] at hsuccess hrewritten
      obtain ⟨hsuccess, rfl⟩ := hsuccess
      exact ⟨⟨hsuccess, hrewritten⟩, w', rfl, rfl⟩
    · rintro ⟨⟨hsuccess, hrewritten⟩, w'', h, rfl⟩
      cases h
      exact ⟨rfl, by simp [Verdict.add, hsuccess], by simp [Verdict.add, hrewritten]⟩

/-- Nothing has been rewritten after a turn that writes no fixes, unless something was before. -/
theorem rewritten_of_visit (hreadOnly : p.readOnly = true) (h : p.visit root path s = .ok s') :
    s'.verdict.rewritten = s.verdict.rewritten := by
  have hjob : p.job.readOnly = true := hreadOnly
  cases hread : s.world.tree.read p.job.work path with
  | error e =>
    rw [Plan.visit_of_process root hhooks (Job.process_of_unread _ (.ofPath root path) _ hread)] at h
    cases h
    rfl
  | ok bytes =>
    rw [Plan.visit_of_process root hhooks (Job.process_of_kept _ (.ofPath root path) _ hread (.inr hjob))] at h
    cases h
    rfl

/-- A run mimics another, as far as it leaves everything untouched, when it processes files as the other does. -/
theorem mimics_visit {p' : Plan} (hhooks' : p'.hooks = {})
    (hprocess : ∀ r w w', p.job.process r w = .ok (w', ⟨true, false⟩) → p'.job.process r w = .ok (w', ⟨true, false⟩)) :
    Mimics State.Untouched (p.visit root path) (p'.visit root path) := by
  intro s s' h huntouched
  obtain ⟨hs, w', hok, heq⟩ := (visit_untouched_iff p hhooks root path).1 ⟨h, huntouched⟩
  exact ⟨hs, ((visit_untouched_iff p' hhooks' root path).2 ⟨hs, w', hprocess _ _ _ hok, heq⟩).1⟩

end Runs

/-- The run of the tasks of this library under some options. -/
def Plan.builtin (php : Php.Tokenizer) (o : TaskOptions) (walk : Walk) (readOnly : Bool) : Plan :=
  ⟨walk, Builtin.selectedWith php.tokens o, readOnly, {}⟩

section Whole

variable (php : Php.Tokenizer) (o : TaskOptions) (walk : Walk) (root : Path) (w : World) {s : State}

theorem rewritten_of_check (h : (Plan.builtin php o walk true).run root w = .ok s) : s.verdict.rewritten = [] := by
  refine Walk.run_preserves walk (fun s : State => s.world.tree) (P := fun s : State => s.verdict.rewritten = [])
    (fun path s s' hs hvisit => ?_) root rfl h
  rw [rewritten_of_visit (Plan.builtin php o walk true) rfl root path rfl hvisit, hs]

/-- What is found in a run without fixes that leaves everything untouched are warnings. -/
theorem warnings_of_check (h : (Plan.builtin php o walk true).run root w = .ok s) (hs : s.Untouched) :
    ∃ new, s.world.reporter.findings = w.reporter.findings ++ new ∧ ∀ f ∈ new, f.level = .warning := by
  refine Walk.run_preserves walk (fun s : State => s.world.tree)
    (P := fun s : State => s.Untouched →
      ∃ new, s.world.reporter.findings = w.reporter.findings ++ new ∧ ∀ f ∈ new, f.level = .warning)
    (fun path s s' hfound hvisit hs' => ?_) root (fun _ => ⟨[], by simp, by simp⟩) h hs
  obtain ⟨hs, w', hprocess, rfl⟩ := (visit_untouched_iff (Plan.builtin php o walk true) rfl root path).1 ⟨hvisit, hs'⟩
  obtain ⟨new, hnew, hwarnings⟩ := hfound hs
  obtain ⟨-, new', hnew', hwarnings'⟩ := process_of_readOnly php o walk.work _ _ _ hprocess
  refine ⟨new ++ new', ?_, fun f hf => (List.mem_append.1 hf).elim (hwarnings f) (hwarnings' f)⟩
  rw [← List.append_assoc, ← hnew]
  exact hnew'

end Whole

/-- Checking and fixing agree. A run of the tasks of this library without fixes ends well in a state if and only if the run
with fixes ends well in it without having rewritten a file, so that both have found the same in the same order; and then all
that they have found are warnings. -/
theorem check_ends_well_iff_fix_rewrites_nothing (php : Php.Tokenizer) (o : TaskOptions) (walk : Walk) (root : Path)
    (w : World) (s : State) :
    ((Plan.builtin php o walk true).run root w = .ok s ∧ s.verdict.success = true ↔
      (Plan.builtin php o walk false).run root w = .ok s ∧ s.verdict.success = true ∧ s.verdict.rewritten = []) ∧
    ((Plan.builtin php o walk true).run root w = .ok s ∧ s.verdict.success = true →
      ∃ new, s.world.reporter.findings = w.reporter.findings ++ new ∧ ∀ f ∈ new, f.level = .warning) := by
  have huntouched (h : (Plan.builtin php o walk true).run root w = .ok s) (hs : s.verdict.success = true) :
      s.Untouched := ⟨hs, rewritten_of_check php o walk root w h⟩
  refine ⟨⟨fun ⟨h, hs⟩ => ?_, fun ⟨h, hs⟩ => ?_⟩, fun ⟨h, hs⟩ => warnings_of_check php o walk root w h (huntouched h hs)⟩
  · have hvisit (path : Path) : Mimics State.Untouched ((Plan.builtin php o walk true).visit root path)
        ((Plan.builtin php o walk false).visit root path) :=
      mimics_visit _ rfl root path rfl fun r w w' hok => (process_of_readOnly php o walk.work r w w' hok).1
    have hmimics := Walk.mimics_run hvisit walk (fun s : State => s.world.tree) root
    exact ⟨(hmimics _ _ h (huntouched h hs)).2, huntouched h hs⟩
  · have hvisit (path : Path) : Mimics State.Untouched ((Plan.builtin php o walk false).visit root path)
        ((Plan.builtin php o walk true).visit root path) :=
      mimics_visit _ rfl root path rfl fun r w w' hok => process_of_unwritten php o walk.work r w w' hok
    have hmimics := Walk.mimics_run hvisit walk (fun s : State => s.world.tree) root
    exact ⟨(hmimics _ _ h hs).2, hs.1⟩

namespace AgreementWitness

/-- A walk that accepts every name. -/
def walk : Walk := ⟨.ofList ["*"], .ofList [], false, []⟩

/-- The root of the run. -/
def root : Path := .ofText "/r"

/-- A directory with one file, a source with a tag in a plain comment. -/
def world : World where
  tree := ⟨[(["r"], .directory), (["r", "a.php"], .file 0o644 ("<?php\n/* @a */\n".toUTF8.toList))]⟩

/-- The directory when the comment has been warned of. -/
def warned : World :=
  { world with reporter := ⟨[⟨.warning, "a.php", "Missing /** in phpDoc comment", some 2, true⟩]⟩ }

/-- The state that the run ends in. -/
def ended : State where
  world := warned
  verdict := { files := 1 }
  events := [.before "a.php" world, .process "a.php" world, .after "a.php" true warned]

theorem check_eq : (Plan.builtin Php.tokenizer {} walk true).run root world = .ok ended := by
  cbv

end AgreementWitness

open AgreementWitness in
/-- A run without fixes that warns of something ends well, so the run with fixes ends in the same state. -/
theorem check_ends_well_witness :
    (Plan.builtin Php.tokenizer {} walk true).run root world = .ok ended ∧
      (Plan.builtin Php.tokenizer {} walk false).run root world = .ok ended ∧
      ended.world.reporter.findings.map (·.level) = [.warning] ∧
      ∃ new, ended.world.reporter.findings = world.reporter.findings ++ new ∧ ∀ f ∈ new, f.level = .warning := by
  obtain ⟨hiff, hwarnings⟩ := check_ends_well_iff_fix_rewrites_nothing Php.tokenizer {} walk root world ended
  exact ⟨check_eq, (hiff.1 ⟨check_eq, rfl⟩).1, rfl, hwarnings ⟨check_eq, rfl⟩⟩

end Run
end SourceTidy
