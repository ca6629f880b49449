import SourceTidy.Proofs.Json.Blanks
import SourceTidy.Proofs.Task.Blanks
import SourceTidy.Task.JsonDocument

/-!
# Checks that stay silent

Some checks run before trailing blanks are taken away. What they find nothing wrong with, they find nothing wrong with
afterwards: no character is new but line feeds, no tab comes to stand at the start of a line, and a JSON document stays one.
-/

namespace SourceTidy.Task

open Text (lineFeed carriageReturn)

/-! ## Characters -/

theorem atFirst_eq_nil_iff (level : Level) (message : Text) (p : CodePoint → Bool) (t : Text) :
    Notice.atFirst level message p t = [] ↔ ∀ c ∈ t, p c = false := by
  rw [Notice.atFirst, Option.toList_eq_nil_iff, Option.map_eq_none_iff, List.findIdx?_eq_none_iff]

/-- A check for characters, line feeds not among them, stays silent on a text that is tidied. -/
theorem atFirst_tidyBlanks (level : Level) (message : Text) {p : CodePoint → Bool} (hp : p lineFeed = false) {t : Text}
    (h : Notice.atFirst level message p t = []) : Notice.atFirst level message p (tidyBlanks t) = [] := by
  rw [atFirst_eq_nil_iff] at h ⊢
  intro c hc
  rcases mem_of_mem_tidyBlanks hc with hc | rfl
  · exact h c hc
  · exact hp

theorem checkControlCharacters_tidyBlanks {t : Text} (h : checkControlCharacters t = []) :
    checkControlCharacters (tidyBlanks t) = [] :=
  atFirst_tidyBlanks _ _ (by decide) h

theorem checkEncoding_tidyBlanks {t : Text} (h : checkEncoding t = []) : checkEncoding (tidyBlanks t) = [] :=
  atFirst_tidyBlanks _ _ (by decide) h

/-- A check for characters stays silent on a part of a text. -/
theorem atFirst_of_subset (level : Level) (message : Text) (p : CodePoint → Bool) {t t' : Text} (hsub : t' ⊆ t)
    (h : Notice.atFirst level message p t = []) : Notice.atFirst level message p t' = [] := by
  rw [atFirst_eq_nil_iff] at h ⊢
  exact fun c hc => h c (hsub hc)

/-! ## Tabs -/

theorem checkYamlIndentation_eq_nil_iff (t : Text) : checkYamlIndentation t = [] ↔ NoTabbedLine true t := by
  rw [checkYamlIndentation, Option.toList_eq_nil_iff, Option.map_eq_none_iff, firstLine?,
    firstLineFrom_startsWithTab_eq_none_iff]

theorem checkYamlIndentation_tidyBlanks {t : Text} (h : checkYamlIndentation t = []) :
    checkYamlIndentation (tidyBlanks t) = [] := by
  rw [checkYamlIndentation_eq_nil_iff] at h ⊢
  exact noTabbedLine_tidyBlanks h

/-! ## Documents -/

theorem isBlank_of_isLineBlank {c : CodePoint} (hc : isLineBlank c = true) : Json.isBlank c = true := by
  simp only [isLineBlank, Bool.or_eq_true, beq_iff_eq] at hc
  rcases hc with rfl | rfl <;> decide

/-- A blank at the end of a file that is no control character is one of a JSON document too. -/
theorem isBlank_of_isEndBlank {c : CodePoint} (hc : isEndBlank c = true) (hcontrol : isControl c = false) :
    Json.isBlank c = true := by
  simp only [isEndBlank, Bool.or_eq_true, beq_iff_eq] at hc
  simp only [isControl, CodePoint.within, Bool.or_eq_false_iff, decide_eq_false_iff_not] at hcontrol
  rcases hc with ((((rfl | rfl) | rfl) | rfl) | hc) | hc
  · decide
  · decide
  · decide
  · decide
  · omega
  · omega

theorem exists_isBlank_of_endsAhead {t : Text} (h : endsAhead t = true) :
    ∃ c rest, t = c :: rest ∧ Json.isBlank c = true := by
  cases t with
  | nil => cases h
  | cons c rest =>
    refine ⟨c, rest, rfl, ?_⟩
    cases hc : isLineBlank c with
    | true => exact isBlank_of_isLineBlank hc
    | false =>
      rw [endsAhead_cons_of_not_blank hc] at h
      rcases h with rfl | ⟨rfl, -⟩ <;> decide

theorem thins_tidied {d : CodePoint} (front : Text) {blanks ends : Text} (hblanks : ∀ c ∈ blanks, Json.isBlank c = true)
    (hends : ∀ c ∈ ends, Json.isBlank c = true) (hne : ends ≠ []) :
    Json.Thins (front ++ d :: blanks) (stripLineBlanks front ++ d :: ends) := by
  induction front with
  | nil => exact .keep d (.done hblanks hends fun _ => hne)
  | cons c front ih =>
    rw [stripLineBlanks_cons]
    split
    · rename_i hgone
      rw [Bool.and_eq_true] at hgone
      obtain ⟨b, rest, rfl, hb⟩ := exists_isBlank_of_endsAhead hgone.2
      exact .drop (isBlank_of_isLineBlank hgone.1) hb ih
    · exact ih.keep c

theorem check_tidyBlanks {t : Text} (hcontrol : ∀ c ∈ t, isControl c = false) (h : Json.check t = .ok ()) :
    Json.check (tidyBlanks t) = .ok () := by
  have hends {t : Text} : ∀ c ∈ firstLineEnd t, Json.isBlank c = true := by
    rcases firstLineEnd_eq t with h | ⟨h, -⟩ <;> rw [h] <;> decide
  have hne (t : Text) : firstLineEnd t ≠ [] := by
    rcases firstLineEnd_eq t with h | ⟨h, -⟩ <;> rw [h] <;> simp
  rcases endBlank_or_split t with ht | ⟨front, d, blanks, rfl, hd, hblanks⟩
  · -- A document is not blank.
    have hnil : Json.skipBlanks t = [] := by
      rw [Json.skipBlanks, List.dropWhile_eq_nil_iff]
      exact fun c hc => isBlank_of_isEndBlank (ht c hc) (hcontrol c hc)
    rw [Json.check, Json.checkWithin, hnil, Json.readValue] at h
    split at h <;> cases h
  · rw [tidyBlanks_append_cons hd front hblanks]
    refine Json.checkWithin_of_thins (thins_tidied front (fun c hc => ?_) hends (hne _)) h
    exact isBlank_of_isEndBlank (hblanks c hc) (hcontrol c (by simp [hc]))

end SourceTidy.Task
