import SourceTidy.Proofs.Run.Convergence
import SourceTidy.Proofs.Task.Unfixed

/-!
# What a run without fixes says of a file that fixes would leave fine

A run that writes no fixes reports them, and goes on with the text as it was. If the fixes would leave the file fine, it reports
an error all the same where a check does not read what a fix would have made of the text, and nowhere else: at a byte order mark
before a JSON document, and at what the checks find that run after trailing blanks are taken away (`check_errs_only_unfixed`).
A fix has then been reported as well, so the file was not fine before either.
-/

namespace SourceTidy.Run

open SourceTidy.Task (Builtin)
open SourceTidy.Config (TaskOptions)

/-! ## What a pass without fixes finds -/

namespace Pass

variable (php : Php.Tokenizer) (path : Text)

/-- Without fixes, every task looks at the text as it was. -/
theorem findings_through_readOnly (bs : List Builtin) (p : Pass) :
    (through php bs ⟨path, true⟩ p).world.reporter.findings = p.world.reporter.findings ++
      bs.flatMap fun b => findings ⟨path, true⟩ (b.taskWith php.tokens) p.content := by
  rw [through, foldl_of_stays _ _ (keepsTree_tasks php bs) p (stays_of_readOnly php bs path p.content),
    World.add_findings, List.flatMap_map]

/-- A task reports an error without fixes when it goes wrong with them. -/
theorem exists_error_iff (b : Builtin) (t : Text) :
    (∃ f ∈ findings ⟨path, true⟩ (b.taskWith php.tokens) t, f.level = .error) ↔
      (b.taskWith php.tokens).goesWrong ⟨path, false⟩ t = true := by
  have hfatal (level : Level) : isFatal false level = true ↔ level = .error := by cases level <;> decide
  simp only [findings, Task.goesWrong_eq_any, List.any_eq_true, hfatal, List.mem_map,
    Builtin.reports_context php b ⟨path, true⟩ ⟨path, false⟩ t]
  constructor
  · rintro ⟨f, ⟨n, hn, rfl⟩, hlevel⟩
    exact ⟨n, hn, hlevel⟩
  · rintro ⟨n, hn, hlevel⟩
    exact ⟨_, ⟨n, hn, rfl⟩, hlevel⟩

/-- A task that answers with another text than it was given reports a fix. -/
theorem exists_fix_of_answer_ne {b : Builtin} {t : Text} {c c' : Task.Context}
    (h : (b.taskWith php.tokens).answer c' t ≠ t) :
    ∃ f ∈ findings c (b.taskWith php.tokens) t, f.level = .fix := by
  rw [Builtin.answer_context php b c' c] at h
  obtain ⟨n, hn, hlevel⟩ := (Builtin.reports_fix_iff php b c t).2 h
  exact ⟨findingOf c n, List.mem_map.2 ⟨n, List.mem_append_left _ hn, rfl⟩, hlevel⟩

/-- Without fixes, no fix that is found is applied. -/
theorem applied_of_findings {b : Builtin} {t : Text} {f : Finding}
    (hf : f ∈ findings ⟨path, true⟩ (b.taskWith php.tokens) t) (hlevel : f.level = .fix) : f.applied = false := by
  obtain ⟨n, -, rfl⟩ := List.mem_map.1 hf
  have hn : n.level = .fix := hlevel
  simp [findingOf, hn]

/-- If a pass with fixes ends well, a task goes wrong with fixes at the text as it was exactly when it errs on a text that is not
fixed. -/
theorem goesWrong_iff_of_through {o : TaskOptions} {name : Text} {p : Pass} (hp : p.hasError = false)
    (h : (through php (lookingAt o name) ⟨path, false⟩ p).hasError = false) {b : Builtin} (hb : b ∈ lookingAt o name) :
    (b.taskWith php.tokens).goesWrong ⟨path, false⟩ p.content = true ↔ b.ErrsUnfixed php p.content := by
  obtain ⟨before, after, hlist⟩ := List.append_of_mem hb
  have hlooks : ∀ b' ∈ lookingAt o name, b'.task.looksAt name = true := fun b' hb' => (List.mem_filter.1 hb').2
  have hsublist : (before ++ b :: after).Sublist Builtin.all :=
    hlist ▸ List.filter_sublist.trans List.filter_sublist
  rw [hlist] at h hlooks
  have hbefore : ∀ b' ∈ before, [b', b].Sublist Builtin.all := fun b' hb' =>
    ((List.singleton_sublist.2 hb').append (List.singleton_sublist.2 List.mem_cons_self)).trans hsublist
  refine Builtin.goesWrong_iff_errsUnfixed php path hbefore (hlooks b (by simp)) (fun b' hb' => hlooks b' (by simp [hb'])) ?_
  exact goesWrong_of_through php _ hp h

/-- If a pass with fixes ends well and something goes wrong with fixes at the text as it was, then some task changes that text. -/
theorem exists_answer_ne {bs : List Builtin} {p : Pass} (hp : p.hasError = false)
    (h : (through php bs ⟨path, false⟩ p).hasError = false) {b : Builtin} (hb : b ∈ bs)
    (hwrong : (b.taskWith php.tokens).goesWrong ⟨path, false⟩ p.content = true) :
    ∃ b' ∈ bs, (b'.taskWith php.tokens).answer ⟨path, false⟩ p.content ≠ p.content := by
  by_contra hnone
  have hsame : ∀ b' ∈ bs, (b'.taskWith php.tokens).answer ⟨path, false⟩ p.content = p.content :=
    fun b' hb' => by_contra fun hne => hnone ⟨b', hb', hne⟩
  obtain ⟨before, after, rfl⟩ := List.append_of_mem hb
  have hright := goesWrong_of_through php _ hp h
  rw [Builtin.answerAll_eq_self php _ fun b' hb' => hsame b' (List.mem_append_left _ hb'), hwrong] at hright
  cases hright

end Pass

/-! ## What a run without fixes finds -/

section Files

variable (php : Php.Tokenizer) (o : TaskOptions) (work : Location) (r : Record) (w w' : World) {bytes : Bytes}

/-- A file that ends well with fixes has been read, and its pass has ended well. -/
theorem pass_of_process {rewritten : Bool} (hread : w.tree.read work r.path = .ok bytes)
    (h : (Job.builtin php o work false).process r w = .ok (w', ⟨true, rewritten⟩)) :
    ((Job.builtin php o work false).pass r w (Utf8.decode bytes)).hasError = false := by
  by_cases hkept : ((Job.builtin php o work false).pass r w (Utf8.decode bytes)).content = Utf8.decode bytes
  · rw [Job.process_of_kept _ r w hread (.inl hkept)] at h
    simp only [Except.ok.injEq, Prod.mk.injEq, Result.mk.injEq, Bool.not_eq_true'] at h
    exact h.2.1
  · rw [Job.process_of_changed _ r w hread hkept rfl, Job.writeBack] at h
    split at h
    · simp only [Except.ok.injEq, Prod.mk.injEq, Result.mk.injEq, Bool.not_eq_true'] at h
      exact h.2.1
    · cases h
    · cases h

/-- If a run with fixes ends well on a file, then a run without them reports errors for it only from tasks that err on a text that
is not fixed, and one at least from each of these that looks at the file. What is reported besides are fixes that are not applied
and warnings, and there are no errors without such fixes. -/
theorem check_errs_only_unfixed {rewritten : Bool} (hread : w.tree.read work r.path = .ok bytes)
    (hfix : (Job.builtin php o work false).process r w = .ok (w', ⟨true, rewritten⟩)) :
    ∃ w'' ok new, (Job.builtin php o work true).process r w = .ok (w'', ⟨ok, false⟩) ∧
      w''.reporter.findings = w.reporter.findings ++ new ∧ (∀ f ∈ new, f.level = .fix → f.applied = false) ∧
      (∀ f ∈ new, f.level = .error → ∃ b ∈ lookingAt o r.path.name, b.ErrsUnfixed php (Utf8.decode bytes) ∧
        f ∈ Pass.findings ⟨r.relative, true⟩ (b.taskWith php.tokens) (Utf8.decode bytes)) ∧
      (∀ b ∈ lookingAt o r.path.name, b.ErrsUnfixed php (Utf8.decode bytes) → ∃ f ∈ new, f.level = .error ∧
        f ∈ Pass.findings ⟨r.relative, true⟩ (b.taskWith php.tokens) (Utf8.decode bytes)) ∧
      ((∃ f ∈ new, f.level = .error) → ∃ f ∈ new, f.level = .fix) := by
  have hpass := pass_of_process php o work r w w' hread hfix
  rw [Job.pass_builtin] at hpass
  have herrs {b : Builtin} (hb : b ∈ lookingAt o r.path.name) :
      (∃ f ∈ Pass.findings ⟨r.relative, true⟩ (b.taskWith php.tokens) (Utf8.decode bytes), f.level = .error) ↔
        b.ErrsUnfixed php (Utf8.decode bytes) :=
    (Pass.exists_error_iff php r.relative b _).trans (Pass.goesWrong_iff_of_through php r.relative rfl hpass hb)
  refine ⟨_, _, (lookingAt o r.path.name).flatMap fun b =>
    Pass.findings ⟨r.relative, true⟩ (b.taskWith php.tokens) (Utf8.decode bytes),
    Job.process_of_kept _ r w hread (.inr rfl), ?_, fun f hf hlevel => ?_, fun f hf hlevel => ?_, fun b hb herr => ?_, ?_⟩
  · rw [Job.pass_builtin, Pass.findings_through_readOnly]
  · obtain ⟨b, -, hf⟩ := List.mem_flatMap.1 hf
    exact Pass.applied_of_findings php r.relative hf hlevel
  · obtain ⟨b, hb, hf⟩ := List.mem_flatMap.1 hf
    exact ⟨b, hb, (herrs hb).1 ⟨f, hf, hlevel⟩, hf⟩
  · obtain ⟨f, hf, hlevel⟩ := (herrs hb).2 herr
    exact ⟨f, List.mem_flatMap.2 ⟨b, hb, hf⟩, hlevel, hf⟩
  · rintro ⟨f, hf, hlevel⟩
    obtain ⟨b, hb, hf⟩ := List.mem_flatMap.1 hf
    have hwrong := (Pass.exists_error_iff php r.relative b _).1 ⟨f, hf, hlevel⟩
    obtain ⟨b', hb', hanswer⟩ := Pass.exists_answer_ne php r.relative rfl hpass hb hwrong
    obtain ⟨f', hf', hlevel'⟩ := Pass.exists_fix_of_answer_ne php hanswer
    exact ⟨f', List.mem_flatMap.2 ⟨b', hb', hf'⟩, hlevel'⟩

end Files

namespace PreviewWitness

/-- The record of a script at the top. -/
def record : Record := ⟨.ofText "/a.js", "a.js"⟩

/-- A world with that script alone, and some findings. -/
def world (content : Bytes) (findings : List Finding) : World where
  tree := ⟨[(["a.js"], .file 0o644 content)]⟩
  reporter := ⟨findings⟩

/-- A letter and a line feed. -/
def plain : Bytes := [0x78, 0x0A]

/-- The same with a line of blanks behind it. -/
def blank : Bytes := plain ++ [0x20, 0x20, 0x0A]

/-- What is found when the blanks are taken away. -/
def fixed : List Finding := [⟨.fix, "a.js", "3 bytes of whitespaces", none, true⟩]

/-- What is found when they stay. -/
def found : List Finding :=
  [⟨.fix, "a.js", "3 bytes of whitespaces", none, false⟩,
    ⟨.error, "a.js", "Used space to indentate instead of tab", some 2, true⟩]

theorem read_blank : (world blank []).tree.read [] record.path = .ok blank := by cbv

theorem process_fix :
    (Job.builtin Php.tokenizer {} [] false).process record (world blank []) =
      .ok (world plain fixed, ⟨true, true⟩) := by
  have hpass : (Job.builtin Php.tokenizer {} [] false).pass record (world blank []) (Utf8.decode blank) =
      ⟨world blank fixed, Text.ofString "x\n", false⟩ := by cbv
  exact Job.process_of_written _ record _ read_blank hpass (by decide +kernel) rfl (by cbv)

theorem process_check :
    (Job.builtin Php.tokenizer {} [] true).process record (world blank []) = .ok (world blank found, ⟨false, false⟩) := by
  cbv

end PreviewWitness

open PreviewWitness in
/-- A script with a line of blanks: a run with fixes leaves it fine, and one without them reports an error, besides the fix. -/
theorem fixed_script_errs_unfixed :
    (∃ w', (Job.builtin Php.tokenizer {} [] false).process record (world blank []) = .ok (w', ⟨true, true⟩)) ∧
      ∃ w'' new, (Job.builtin Php.tokenizer {} [] true).process record (world blank []) = .ok (w'', ⟨false, false⟩) ∧
        w''.reporter.findings = (world blank []).reporter.findings ++ new ∧ ∃ f ∈ new, f.level = .error :=
  ⟨⟨_, process_fix⟩, _, found, process_check, rfl, _, List.mem_cons_of_mem _ List.mem_cons_self, rfl⟩

open PreviewWitness in
/-- A run without fixes reports an error for that script, because it errs unfixed, and a fix. -/
theorem check_errs_only_unfixed_witness :
    (world blank []).tree.read [] record.path = .ok blank ∧
      (Job.builtin Php.tokenizer {} [] false).process record (world blank []) = .ok (world plain fixed, ⟨true, true⟩) ∧
      ∃ w'' ok new, (Job.builtin Php.tokenizer {} [] true).process record (world blank []) = .ok (w'', ⟨ok, false⟩) ∧
        w''.reporter.findings = (world blank []).reporter.findings ++ new ∧ (∃ f ∈ new, f.level = .error) ∧
        ∃ f ∈ new, f.level = .fix ∧ f.applied = false := by
  obtain ⟨w'', ok, new, hcheck, hnew, happlied, -, herror, hfix⟩ :=
    check_errs_only_unfixed Php.tokenizer {} [] record _ _ read_blank process_fix
  have hlooks : Builtin.tabIndentation ∈ lookingAt {} record.path.name := by decide +kernel
  have hindentation : Task.checkTabIndentation (Utf8.decode blank) ≠ [] := by decide +kernel
  obtain ⟨e, he, herr, -⟩ := herror .tabIndentation hlooks hindentation
  obtain ⟨f, hf, hlevel⟩ := hfix ⟨e, he, herr⟩
  exact ⟨read_blank, process_fix, w'', ok, new, hcheck, hnew, ⟨e, he, herr⟩, f, hf, hlevel, happlied f hf hlevel⟩

end SourceTidy.Run
