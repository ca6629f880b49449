import Mathlib
import SourceTidy.Cli.Run
import SourceTidy.Proofs.Config.Failures

/-!
# Failures before a check starts

A command answers for settings that cannot be loaded, by the exit status for a command that does not start. It does so for all
that loading answers for, and nothing else fails when the settings are made (`escapes_settingsFor_iff`), so that what can go
wrong on the way is just what `Config.Slips` lists.
-/

namespace SourceTidy.Cli

open SourceTidy.Config (Slips)
open SourceTidy.Report (Status)

/-- Making the settings fails as something that commands do not answer for exactly when loading them does. -/
theorem escapes_settingsFor_iff (h : Host) (o : Options) :
    (∃ e, h.settingsFor o = .error e ∧ e.isOwn = false) ↔ Slips h.means h.tree h.work o.path o.configFile := by
  rw [← Config.escapes_load_iff]
  constructor
  · rintro ⟨e, he, hown⟩
    rcases Except.bind_eq_error_iff.1 he with hload | ⟨loaded, -, hunknown⟩
    · obtain ⟨e', he', rfl⟩ := Except.mapError_eq_error_iff.1 hload
      exact ⟨e', he', hown⟩
    · simp only at hunknown
      split at hunknown
      · cases hunknown
      · cases hunknown
        cases hown
  · rintro ⟨e, he, hown⟩
    exact ⟨.load e, Except.bind_eq_error_iff.2 (.inl (Except.mapError_eq_error_iff.2 ⟨e, he, rfl⟩)), hown⟩

/-- The line that says why a command does not start. -/
def StartError.line (e : StartError) : Text := Status.fail.line false ("Error: " ++ e.message)

/-- A failure that commands answer for has the exit status for a command that does not start, if it can be printed. -/
theorem exitCode_refused {e : StartError} (hown : e.isOwn = true) (hline : Utf8.surrogates? e.line = none) (t : Tree) :
    (refused e t).exitCode = exitStartup := by
  have hscreen : (({} : Screen).print e.line).failure = none := by simp [Screen.print, hline]
  rw [refused, if_pos hown]
  simp only [StartError.line] at hscreen
  simp [finished, hscreen]

/-- Loading settings gives settings or fails as it says it does, and making the settings of a command then gives settings or
fails as commands do, exactly when nothing slips. -/
theorem configuration_answers_iff (h : Host) (o : Options) :
    (((∃ r, Config.load h.means h.tree h.work o.path o.configFile = .ok r) ∨
        ∃ e, Config.load h.means h.tree h.work o.path o.configFile = .error e ∧ e.isOwn = true) ↔
      ¬ Slips h.means h.tree h.work o.path o.configFile) ∧
    (((∃ s, h.settingsFor o = .ok s) ∨
        ∃ e, h.settingsFor o = .error e ∧ e.isOwn = true ∧
          (Utf8.surrogates? e.line = none → (refused e h.tree).exitCode = exitStartup)) ↔
      ¬ Slips h.means h.tree h.work o.path o.configFile) := by
  refine ⟨?_, ?_⟩
  · rw [← Config.escapes_load_iff, Config.not_escapes_iff]
  · rw [← escapes_settingsFor_iff]
    cases h.settingsFor o with
    | ok s => simp
    | error e =>
      cases hown : e.isOwn with
      | false => simp [hown]
      | true =>
        refine iff_of_true (.inr ⟨e, rfl, hown, fun hline => exitCode_refused hown hline h.tree⟩) ?_
        rintro ⟨e', ⟨⟩, hother⟩
        exact absurd (hown.symm.trans hother) nofun

namespace StartupWitness

def root : Path := Path.ofText "/r"

/-- A directory with a document of settings. -/
def settled (content : Bytes) : Host := { tree := ⟨[(["r"], .directory), (["r", ".codechecker.toml"], .file 0o644 content)]⟩ }

/-- A byte that is no UTF-8. -/
def garbled : Bytes := [0xFF]

/-- A list to be extended by a number: `discovery.extend_accept=5`. -/
def numbered : Bytes := (Text.ofString "discovery.extend_accept=5").map fun c => UInt8.ofNat c.toNat

end StartupWitness

open StartupWitness in
set_option maxRecDepth 4000 in
/-- A document that is not UTF-8, and a list to be extended by a number, fail as something else than wrong settings. -/
theorem failures_escape :
    (Config.load .usual (settled garbled).tree [] root none = .error (.notUtf8 ⟨0, 0xFF, 0, .start⟩) ∧
      (settled garbled).settingsFor { path := root } = .error (.load (.notUtf8 ⟨0, 0xFF, 0, .start⟩)) ∧
      (StartError.load (.notUtf8 ⟨0, 0xFF, 0, .start⟩)).isOwn = false) ∧
    (Config.load .usual (settled numbered).tree [] root none = .error (.notIterable ⟨"int"⟩) ∧
      (settled numbered).settingsFor { path := root } = .error (.load (.notIterable ⟨"int"⟩)) ∧
      (StartError.load (.notIterable ⟨"int"⟩)).isOwn = false) := by
  refine ⟨⟨by cbv, by cbv, rfl⟩, by cbv, by cbv, rfl⟩

end SourceTidy.Cli
