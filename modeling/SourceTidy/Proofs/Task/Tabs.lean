import Mathlib.Data.List.DropRight
import Mathlib.Data.List.TakeWhile
import SourceTidy.Proofs.Php.Scans
import SourceTidy.Proofs.Text.Lines

/-!
# Tabs in YAML

Two searches look for tabs: one for a line that starts with a tab, the other for a line with a tab behind something that is
neither a tab nor a line end, where lines that start with two slashes are let be. Each reports the first line that it refuses,
and there is a tab on it (`ReportsFirstTab`). What neither of them sees is a tab behind a carriage return that ends no line
(`tabs_are_reported_iff`).
-/

namespace SourceTidy

namespace Text

/-- The last line of a text: what comes after its last line feed. -/
def lastLine (t : Text) : Text := t.rtakeWhile (· != lineFeed)

/-- A line starts behind a text exactly when nothing is in it, or a line feed ends it. -/
theorem startsLine_append_iff (earlier : Text) {rest : Text} (hrest : rest ≠ []) :
    StartsLine (earlier ++ rest) earlier.length ↔ ∀ c ∈ earlier.getLast?, c = lineFeed := by
  have hlength : 0 < rest.length := List.length_pos_iff.2 hrest
  induction earlier using List.reverseRecOn with
  | nil => simpa [StartsLine, StartsLineFrom] using hlength
  | append_singleton front d _ =>
    have hd : (front ++ [d] ++ rest)[front.length]? = some d := by simp
    have hinside : front.length + 1 < (front ++ [d] ++ rest).length := by simp; omega
    rw [List.length_append, List.length_singleton, StartsLine, StartsLineFrom, hd, List.getLast?_concat]
    simpa using fun _ => hlength

/-- The last line of a text starts a line of every text that goes on with something. -/
theorem exists_startsLine_lastLine (before : Text) {rest : Text} (hrest : rest ≠ []) :
    lineFeed ∉ before.lastLine ∧ ∃ n, StartsLine (before ++ rest) n ∧ (before ++ rest).drop n = before.lastLine ++ rest := by
  have hsplit : before.rdropWhile (· != lineFeed) ++ before.lastLine = before := List.rdropWhile_append_rtakeWhile
  have hlast := List.rdropWhile_last_not (· != lineFeed) before
  refine ⟨fun hmem => by simpa using List.mem_rtakeWhile_imp hmem, (before.rdropWhile (· != lineFeed)).length, ?_⟩
  generalize before.rdropWhile (· != lineFeed) = earlier at hsplit hlast
  rw [← hsplit, List.append_assoc, List.drop_left, hsplit]
  refine ⟨(startsLine_append_iff earlier (List.append_ne_nil_of_right_ne_nil _ hrest)).2 fun c hc => ?_, rfl⟩
  have hne : earlier ≠ [] := by
    rintro rfl
    cases hc
  rw [List.getLast?_eq_some_getLast hne, Option.mem_some_iff] at hc
  subst hc
  simpa using hlast hne

/-- What stands from the start of a line on, with no line feed in it, is the last line of what stands up to there. -/
theorem lastLine_take_append {t front : Text} {n : Nat} (hstart : StartsLine t n) (hfront : lineFeed ∉ front) :
    lastLine (t.take n ++ front) = front := by
  have hrest : t.drop n ≠ [] := by
    rw [Ne, List.drop_eq_nil_iff]
    exact Nat.not_le.2 hstart.lt_length
  have hlast : ∀ c ∈ (t.take n).getLast?, c = lineFeed := by
    rw [← startsLine_append_iff _ hrest, List.take_append_drop, List.length_take_of_le (Nat.le_of_lt hstart.lt_length)]
    exact hstart
  generalize t.take n = earlier at hlast
  induction front using List.reverseRecOn with
  | nil =>
    rw [List.append_nil, lastLine, List.rtakeWhile_eq_nil_iff]
    intro hne
    simpa using hlast _ (List.getLast?_eq_some_getLast hne)
  | append_singleton front d ih =>
    rw [List.mem_append, not_or, List.mem_singleton] at hfront
    rw [← List.append_assoc, lastLine, List.rtakeWhile_concat_pos _ _ _ (by simpa using Ne.symm hfront.2)]
    exact congrArg (· ++ [d]) (ih hfront.1)

end Text

namespace Task

open Text (lineFeed carriageReturn tab StartsLine)

/-- The start of a line that may hold tabs. -/
def slashes : Text := "//"

/-- The line at the head of a text has a tab behind something that is neither a tab nor a line end, and it does not start with
two slashes. -/
def HasInnerTab (s : Text) : Prop :=
  ¬ slashes <+: s ∧ ∃ tabs run rest, s = tabs ++ (run ++ tab :: rest) ∧ (∀ c ∈ tabs, c = tab) ∧ run ≠ [] ∧
    ∀ c ∈ run, c ≠ tab ∧ c ≠ carriageReturn ∧ c ≠ lineFeed

theorem hasInnerTab_iff (s : Text) : hasInnerTab s = true ↔ HasInnerTab s := by
  have hslashes : Text.startsWith s "//" = true ↔ slashes <+: s := by
    rw [Text.startsWith_iff]
    exact exists_congr fun rest => eq_comm
  have hrun (c : CodePoint) : (c != tab && c != carriageReturn && c != lineFeed) = true ↔
      c ≠ tab ∧ c ≠ carriageReturn ∧ c ≠ lineFeed := by
    rw [Bool.and_eq_true, Bool.and_eq_true, bne_iff_ne, bne_iff_ne, bne_iff_ne, and_assoc]
  rw [hasInnerTab, HasInnerTab, Bool.and_eq_true, Bool.and_eq_true, Bool.not_eq_true', ← Bool.not_eq_true, hslashes, and_assoc,
    decide_eq_true_iff, startsWithTab, beq_iff_eq]
  refine and_congr_right fun _ => ?_
  constructor
  · rintro ⟨hlength, hhead⟩
    obtain ⟨rest, hrest⟩ := List.head?_eq_some_iff.1 hhead
    refine ⟨s.takeWhile (· == tab),
      (s.dropWhile (· == tab)).takeWhile fun c => c != tab && c != carriageReturn && c != lineFeed, rest, ?_, ?_, ?_, ?_⟩
    · rw [← hrest, List.takeWhile_append_dropWhile, List.takeWhile_append_dropWhile]
    · intro c hc
      have := List.mem_takeWhile_imp hc
      exact beq_iff_eq.1 this
    · intro hnil
      have := congrArg List.length (List.takeWhile_append_dropWhile
        (p := fun c => c != tab && c != carriageReturn && c != lineFeed) (l := s.dropWhile (· == tab)))
      rw [hnil, List.nil_append] at this
      omega
    · intro c hc
      have := List.mem_takeWhile_imp hc
      exact (hrun c).1 this
  · rintro ⟨tabs, run, rest, rfl, htabs, hne, hall⟩
    obtain ⟨d, run, rfl⟩ := List.exists_cons_of_ne_nil hne
    have hbody : (tabs ++ (d :: run ++ tab :: rest)).dropWhile (· == tab) = d :: run ++ tab :: rest := by
      rw [List.dropWhile_append_of_pos fun c hc => beq_iff_eq.2 (htabs c hc), List.cons_append,
        List.dropWhile_cons_of_neg (by simpa using (hall d List.mem_cons_self).1)]
    have hafter : (d :: run ++ tab :: rest).dropWhile (fun c => c != tab && c != carriageReturn && c != lineFeed) =
        tab :: rest := by
      rw [List.dropWhile_append_of_pos fun c hc => (hrun c).2 (hall c hc), List.dropWhile_cons_of_neg (by decide)]
    rw [hbody, hafter]
    refine ⟨?_, rfl⟩
    simp only [List.length_append, List.length_cons]
    omega

/-- What is reported about the lines that a rule refuses: nothing if there are none, and otherwise the first one of them, and
there is a tab on it. -/
def ReportsFirstTab (rule : Text → Prop) (message : Text) (t : Text) (notices : List Notice) : Prop :=
  (notices = [] ∧ ∀ n, StartsLine t n → ¬ rule (t.drop n)) ∨
    ∃ n front rest, StartsLine t n ∧ rule (t.drop n) ∧ (∀ m < n, StartsLine t m → ¬ rule (t.drop m)) ∧
      t.drop n = front ++ tab :: rest ∧ lineFeed ∉ front ∧
      notices = [⟨.error, message, some (((t.take n).count lineFeed + 1 : Nat) : Int)⟩]

theorem reportsFirstTab_firstLine? {p : Text → Bool} {rule : Text → Prop} (hp : ∀ s, p s = true ↔ rule s)
    (hrule : ∀ s, rule s → ∃ front rest, s = front ++ tab :: rest ∧ lineFeed ∉ front) (message t : Text) :
    ReportsFirstTab rule message t ((firstLine? p t).map fun n => Notice.at .error message t n).toList := by
  cases hfirst : firstLine? p t with
  | none =>
    refine .inl ⟨rfl, fun n hstart hn => ?_⟩
    obtain ⟨m, -, hm⟩ := exists_firstLine n hstart ((hp _).2 hn)
    rw [← firstLine?_eq_some_iff, hfirst] at hm
    cases hm
  | some n =>
    obtain ⟨hstart, hn, hnone⟩ := (firstLine?_eq_some_iff p t n).1 hfirst
    obtain ⟨front, rest, hdrop, hfront⟩ := hrule _ ((hp _).1 hn)
    refine .inr ⟨n, front, rest, hstart, (hp _).1 hn, fun m hm hstart' hrefused => ?_, hdrop, hfront, rfl⟩
    have := hnone m hm hstart'
    rw [(hp _).2 hrefused] at this
    cases this

theorem ReportsFirstTab.eq_nil_iff {rule : Text → Prop} {message t : Text} {notices : List Notice}
    (h : ReportsFirstTab rule message t notices) : notices = [] ↔ ∀ n, StartsLine t n → ¬ rule (t.drop n) := by
  rcases h with ⟨hnil, hnone⟩ | ⟨n, front, rest, hstart, hrefused, -, -, -, hnotices⟩
  · exact iff_of_true hnil hnone
  · exact iff_of_false (by simp [hnotices]) fun hnone => hnone n hstart hrefused

theorem reportsFirstTab_checkYamlIndentation (t : Text) :
    ReportsFirstTab (fun s => s.head? = some tab) "Used tabs to indentate instead of spaces" t (checkYamlIndentation t) := by
  refine reportsFirstTab_firstLine? (fun s => beq_iff_eq) (fun s hs => ?_) _ t
  obtain ⟨rest, rfl⟩ := List.head?_eq_some_iff.1 hs
  exact ⟨[], rest, rfl, List.not_mem_nil⟩

theorem reportsFirstTab_checkInnerTabs (t : Text) :
    ReportsFirstTab HasInnerTab "Found unexpected tabulator" t (checkInnerTabs t) := by
  refine reportsFirstTab_firstLine? hasInnerTab_iff (fun s hs => ?_) _ t
  obtain ⟨-, tabs, run, rest, rfl, htabs, -, hrun⟩ := hs
  refine ⟨tabs ++ run, rest, (List.append_assoc _ _ _).symm, ?_⟩
  rw [List.mem_append, not_or]
  refine ⟨fun h => ?_, fun h => (hrun _ h).2.2 rfl⟩
  have := htabs _ h
  revert this
  decide

/-- Slashes do not reach over a tab. -/
theorem slashes_prefix_of_append {front rest : Text} (h : slashes <+: front ++ tab :: rest) : slashes <+: front := by
  have hno : tab ∉ slashes := by decide
  rw [List.append_cons] at h
  rcases List.prefix_or_prefix_of_prefix h (List.prefix_append (front ++ [tab]) rest) with hshort | hlong
  · refine (List.prefix_concat_iff.1 hshort).resolve_left fun heq => hno ?_
    rw [heq]
    exact List.mem_append_right front (List.mem_singleton_self tab)
  · exact absurd (hlong.subset (List.mem_append_right front (List.mem_singleton_self tab))) hno

/-- Both checks are silent exactly when every tab stands on a line that starts with two slashes, or behind a carriage return
on its line. -/
theorem silent_iff (t : Text) :
    checkYamlIndentation t = [] ∧ checkInnerTabs t = [] ↔
      ∀ before rest, t = before ++ tab :: rest → slashes <+: before.lastLine ∨ carriageReturn ∈ before.lastLine := by
  rw [(reportsFirstTab_checkYamlIndentation t).eq_nil_iff, (reportsFirstTab_checkInnerTabs t).eq_nil_iff]
  constructor
  · rintro ⟨hyaml, hinner⟩ before rest rfl
    obtain ⟨hline, n, hstart, hdrop⟩ := Text.exists_startsLine_lastLine before (List.cons_ne_nil tab rest)
    by_contra hpass
    rw [not_or] at hpass
    -- The first tab of the line is the one that is seen.
    obtain ⟨run, more, hsplit, hrun⟩ :=
      List.eq_append_cons_of_mem (List.mem_append_right before.lastLine (List.mem_singleton_self tab))
    have hdrop' : (before ++ tab :: rest).drop n = run ++ tab :: (more ++ rest) := by
      rw [hdrop, List.append_cons, hsplit, List.append_assoc, List.cons_append]
    have hmem : ∀ c ∈ run, c ∈ before.lastLine := by
      intro c hc
      have : c ∈ before.lastLine ++ [tab] := hsplit ▸ List.mem_append_left _ hc
      rcases List.mem_append.1 this with hc' | hc'
      · exact hc'
      · rw [List.mem_singleton] at hc'
        exact absurd (hc' ▸ hc) hrun
    by_cases hnil : run = []
    · exact hyaml n hstart (by rw [hdrop', hnil]; rfl)
    · have hslashes : ¬ slashes <+: (before ++ tab :: rest).drop n := by
        rw [hdrop]
        exact mt slashes_prefix_of_append hpass.1
      refine hinner n hstart ⟨hslashes, [], run, more ++ rest, hdrop', by simp, hnil, fun c hc => ?_⟩
      exact ⟨fun h => hrun (h ▸ hc), fun h => hpass.2 (h ▸ hmem c hc), fun h => hline (h ▸ hmem c hc)⟩
  · intro hpass
    -- A tab that is reported has nothing before it on its line but tabs and what is no line end.
    have hseen (n : Nat) (front rest : Text) (hstart : StartsLine t n) (hdrop : t.drop n = front ++ tab :: rest)
        (hfeed : lineFeed ∉ front) (hreturn : carriageReturn ∉ front) : slashes <+: t.drop n := by
      have ht : t = t.take n ++ front ++ tab :: rest := by rw [List.append_assoc, ← hdrop, List.take_append_drop]
      have := hpass _ _ ht
      rw [Text.lastLine_take_append hstart hfeed] at this
      exact hdrop ▸ (this.resolve_right hreturn).trans (List.prefix_append _ _)
    constructor
    · intro n hstart hhead
      obtain ⟨rest, hdrop⟩ := List.head?_eq_some_iff.1 hhead
      have := hseen n [] rest hstart hdrop List.not_mem_nil List.not_mem_nil
      rw [hdrop] at this
      exact absurd (List.cons_prefix_cons.1 this).1 (by decide)
    · rintro n hstart ⟨hslashes, tabs, run, rest, hdrop, htabs, -, hrun⟩
      rw [← List.append_assoc] at hdrop
      refine hslashes (hseen n (tabs ++ run) rest hstart hdrop ?_ ?_)
      · rw [List.mem_append, not_or]
        exact ⟨fun h => absurd (htabs _ h) (by decide), fun h => (hrun _ h).2.2 rfl⟩
      · rw [List.mem_append, not_or]
        exact ⟨fun h => absurd (htabs _ h) (by decide), fun h => (hrun _ h).2.1 rfl⟩

/-- Each of the two checks reports the first line that its rule refuses, and there is a tab on it. Both are silent exactly
when every tab stands on a line that starts with two slashes, or behind a carriage return on its line. So silence means that
all tabs are on lines with slashes, except where every tab on another line stands behind a carriage return and there is such a
tab. -/
theorem tabs_are_reported_iff (t : Text) :
    ReportsFirstTab (fun s => s.head? = some tab) "Used tabs to indentate instead of spaces" t (checkYamlIndentation t) ∧
      ReportsFirstTab HasInnerTab "Found unexpected tabulator" t (checkInnerTabs t) ∧
      (checkYamlIndentation t = [] ∧ checkInnerTabs t = [] ↔
        ∀ before rest, t = before ++ tab :: rest → slashes <+: before.lastLine ∨ carriageReturn ∈ before.lastLine) ∧
      ((checkYamlIndentation t = [] ∧ checkInnerTabs t = [] →
          ∀ before rest, t = before ++ tab :: rest → slashes <+: before.lastLine) ↔
        ¬ ((∃ before rest, t = before ++ tab :: rest ∧ ¬ slashes <+: before.lastLine) ∧
          ∀ before rest, t = before ++ tab :: rest → ¬ slashes <+: before.lastLine → carriageReturn ∈ before.lastLine)) := by
  refine ⟨reportsFirstTab_checkYamlIndentation t, reportsFirstTab_checkInnerTabs t, silent_iff t, ?_⟩
  rw [silent_iff]
  simp only [or_iff_not_imp_left]
  constructor
  · rintro hslashes ⟨⟨before, rest, ht, hno⟩, hreturn⟩
    exact hno (hslashes hreturn before rest ht)
  · intro hno hreturn before rest ht
    by_contra hslashes
    exact hno ⟨⟨before, rest, ht, hslashes⟩, hreturn⟩

/-- A tab behind a carriage return that ends no line. -/
def tabBehindReturn : Text := "a\x0d\tb"

/-- Neither check sees the tab. -/
theorem tab_behind_return_is_passed_over :
    checkYamlIndentation tabBehindReturn = [] ∧ checkInnerTabs tabBehindReturn = [] ∧
      ¬ ∀ t, checkYamlIndentation t = [] ∧ checkInnerTabs t = [] →
        ∀ before rest, t = before ++ tab :: rest → slashes <+: before.lastLine := by
  have hyaml : checkYamlIndentation tabBehindReturn = [] := by decide +kernel
  have hinner : checkInnerTabs tabBehindReturn = [] := by decide +kernel
  refine ⟨hyaml, hinner, fun h => ?_⟩
  have := h tabBehindReturn ⟨hyaml, hinner⟩ ("a\x0d" : String) ("b" : String) (by decide)
  revert this
  decide +kernel

end Task
end SourceTidy
