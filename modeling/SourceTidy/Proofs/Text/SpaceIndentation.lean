import Mathlib.Data.List.TakeWhile
import SourceTidy.Proofs.Text.Lines

/-!
# Lines that are indented with something other than tabs

Whether a line is refused is seen from the line alone, as long as there is something other than blanks in it
(`isSpaceIndented_append`). A line of blanks is refused or not by what comes after it: when that starts with a star, the line
is taken for the head of a comment that goes on there. So the line that is found is the first misindented one unless that is
such a line (`misindented_line_is_found_iff`).
-/

namespace SourceTidy

namespace Text

/-- The line at the head of a text, without the line feed that ends it. -/
def headLine (t : Text) : Text := t.takeWhile (· != lineFeed)

/-- Whether a line, taken alone, is indented with something other than tabs: after its tabs comes a blank that is not one
final carriage return, and its first code point that is no blank, if it has one, is no star. -/
def isMisindented (line : Text) : Bool :=
  let body := line.dropWhile (· == tab)
  body.head?.any CodePoint.isBlank && body != [carriageReturn] &&
    (line.dropWhile CodePoint.isBlank).head? != some ('*' : CodePoint)

/-- Whether the line at the head of a text is blank, and the first code point after it that is no blank is a star. -/
def isBlankBeforeStar (t : Text) : Bool :=
  t.headLine.all CodePoint.isBlank && (t.dropWhile CodePoint.isBlank).head? == some ('*' : CodePoint)

/-- A text is the line at its head and what comes after it: nothing, or a line feed with other lines. -/
theorem exists_headLine_append (t : Text) :
    ∃ rest, t = t.headLine ++ rest ∧ lineFeed ∉ t.headLine ∧ ∀ c ∈ rest.head?, c = lineFeed := by
  refine ⟨t.dropWhile (· != lineFeed), List.takeWhile_append_dropWhile.symm, ?_, ?_⟩
  · intro hmem
    simpa using List.mem_takeWhile_imp hmem
  · intro c hc
    have := List.head?_dropWhile_not (· != lineFeed) t
    rw [Option.mem_def] at hc
    rw [hc] at this
    simpa using this

/-- Whether a line goes on behind its tabs with a blank that does not end it is seen from the line alone. -/
theorem blankAhead_append {body rest : Text} (hbody : lineFeed ∉ body) (hrest : ∀ c ∈ rest.head?, c = lineFeed) :
    (!endsLine (body ++ rest) && (body ++ rest).head?.any CodePoint.isBlank) =
      (body.head?.any CodePoint.isBlank && body != [carriageReturn]) := by
  match body with
  | [] =>
    cases rest with
    | nil => rfl
    | cons r rest =>
      obtain rfl := hrest r rfl
      cases rest <;> rfl
  | [c] =>
    have hc : (c == lineFeed) = false := beq_false_of_ne fun h => hbody (h ▸ List.mem_singleton_self _)
    have hsingle : ([c] != [carriageReturn]) = !(c == carriageReturn) := by
      rw [bne, List.cons_beq_cons]
      exact congrArg not (Bool.and_true _)
    cases rest with
    | nil => simp [endsLine, hc, hsingle, Bool.and_comm]
    | cons r rest =>
      obtain rfl := hrest r rfl
      simp [endsLine, hc, hsingle, Bool.and_comm]
  | c :: d :: body =>
    have hc : (c == lineFeed) = false := beq_false_of_ne fun h => hbody (h ▸ List.mem_cons_self)
    have hd : (d == lineFeed) = false := beq_false_of_ne fun h => hbody (h ▸ List.mem_cons_of_mem _ List.mem_cons_self)
    simp [endsLine, hc, hd]

/-- A line that goes on with a blank behind its tabs starts with a blank. -/
theorem startsBlank_of_body {line : Text} (h : (line.dropWhile (· == tab)).head?.any CodePoint.isBlank = true) (rest : Text) :
    (line ++ rest).head?.any CodePoint.isBlank = true := by
  cases line with
  | nil => cases h
  | cons c line =>
    by_cases hc : c = tab
    · subst hc
      rfl
    · rwa [List.dropWhile_cons_of_neg (by simpa using hc)] at h

/-- A line is refused when it is misindented, unless it is blank and a star is what comes next. -/
theorem isSpaceIndented_append {line rest : Text} (hline : lineFeed ∉ line) (hrest : ∀ c ∈ rest.head?, c = lineFeed) :
    isSpaceIndented (line ++ rest) =
      (isMisindented line &&
        !(line.all CodePoint.isBlank && (rest.dropWhile CodePoint.isBlank).head? == some ('*' : CodePoint))) := by
  have htabs : (line ++ rest).dropWhile (· == tab) = line.dropWhile (· == tab) ++ rest := by
    rw [List.dropWhile_append]
    split
    · rename_i hall
      rw [List.isEmpty_iff] at hall
      rw [hall, List.nil_append]
      cases rest with
      | nil => rfl
      | cons c rest =>
        obtain rfl := hrest c rfl
        rfl
    · rfl
  have hbody : lineFeed ∉ line.dropWhile (· == tab) := fun h => hline ((List.dropWhile_sublist _).subset h)
  rw [isSpaceIndented, htabs, blankAhead_append hbody hrest, isMisindented]
  cases hahead : (line.dropWhile (· == tab)).head?.any CodePoint.isBlank && line.dropWhile (· == tab) != [carriageReturn] with
  | false => rw [Bool.false_and, Bool.false_and, Bool.false_and]
  | true =>
    have hblank := startsBlank_of_body (Bool.and_eq_true_iff.1 hahead).1 rest
    rw [Bool.true_and, Bool.true_and, startsStarred, hblank, Bool.true_and, List.dropWhile_append]
    by_cases hall : line.dropWhile CodePoint.isBlank = []
    · have hline : line.all CodePoint.isBlank = true := List.all_eq_true.2 (List.dropWhile_eq_nil_iff.1 hall)
      rw [if_pos (List.isEmpty_iff.2 hall), hall, hline, Bool.true_and]
      rfl
    · have hline : line.all CodePoint.isBlank = false := by
        rw [← Bool.not_eq_true, List.all_eq_true, ← List.dropWhile_eq_nil_iff]
        exact hall
      obtain ⟨d, body, hbody⟩ := List.exists_cons_of_ne_nil hall
      rw [if_neg (mt List.isEmpty_iff.1 hall), hbody, hline, Bool.false_and, Bool.not_false, Bool.and_true]
      rfl

/-- What is said of the line at the head of a text. -/
theorem isSpaceIndented_eq (t : Text) : isSpaceIndented t = (isMisindented t.headLine && !t.isBlankBeforeStar) := by
  obtain ⟨rest, ht, hline, hrest⟩ := t.exists_headLine_append
  have hstar : t.isBlankBeforeStar = (t.headLine.all CodePoint.isBlank &&
      (rest.dropWhile CodePoint.isBlank).head? == some ('*' : CodePoint)) := by
    rw [isBlankBeforeStar]
    cases hall : t.headLine.all CodePoint.isBlank with
    | false => rw [Bool.false_and, Bool.false_and]
    | true =>
      have hdrop : t.dropWhile CodePoint.isBlank = rest.dropWhile CodePoint.isBlank := by
        conv => lhs; rw [ht]
        exact List.dropWhile_append_of_pos (List.all_eq_true.1 hall)
      rw [hdrop]
  rw [hstar, ← isSpaceIndented_append hline hrest, ← ht]

end Text

namespace Task

open Text (lineFeed StartsLine isSpaceIndented isMisindented isBlankBeforeStar)

/-- The line that is found is the first one that is misindented, with those passed over that are blank and have a star as what
comes next; so it is the first one that is misindented exactly when that is not passed over. What is said of a line that is
not blank does not depend on the lines after it. -/
theorem misindented_line_is_found_iff (t : Text) :
    (∀ n, t.spaceIndentation? = some n ↔
        FirstLine (fun s => isMisindented s.headLine && !s.isBlankBeforeStar) t n) ∧
      ((∀ n, t.spaceIndentation? = some n ↔ FirstLine (fun s => isMisindented s.headLine) t n) ↔
        ¬ ∃ n, FirstLine (fun s => isMisindented s.headLine) t n ∧ isBlankBeforeStar (t.drop n) = true) ∧
      ∀ line rest, lineFeed ∉ line → (∃ c ∈ line, c.isBlank = false) →
        isSpaceIndented (line ++ lineFeed :: rest) = isMisindented line := by
  have hfound (n : Nat) : t.spaceIndentation? = some n ↔
      FirstLine (fun s => isMisindented s.headLine && !s.isBlankBeforeStar) t n := by
    rw [spaceIndentation?_eq_firstLine?, firstLine?_eq_some_iff, funext Text.isSpaceIndented_eq]
  refine ⟨hfound, ?_, ?_⟩
  · simp only [hfound]
    rw [firstLine_iff_of_imp fun s hs => (Bool.and_eq_true_iff.1 hs).1, not_exists]
    refine forall_congr' fun n => ⟨?_, ?_⟩
    · rintro h ⟨hfirst, hstar⟩
      have := h hfirst
      rw [hstar, Bool.not_true, Bool.and_false] at this
      cases this
    · intro h hfirst
      rw [Bool.and_eq_true_iff, Bool.not_eq_true', ← Bool.not_eq_true]
      exact ⟨hfirst.2.1, fun hstar => h ⟨hfirst, hstar⟩⟩
  · rintro line rest hline ⟨c, hc, hblank⟩
    have hall : line.all CodePoint.isBlank = false := List.all_eq_false.2 ⟨c, hc, by rw [hblank]; exact Bool.false_ne_true⟩
    rw [Text.isSpaceIndented_append hline fun d hd => (Option.mem_some_iff.1 hd).symm, hall, Bool.false_and, Bool.not_false,
      Bool.and_true]

/-- A blank line that is indented with blanks before a line that starts with a star. -/
def blankBeforeStar : Text := "  \n *"

/-- The first line is misindented, and it is passed over. -/
theorem blank_line_before_star_is_passed_over :
    FirstLine (fun s => isMisindented s.headLine) blankBeforeStar 0 ∧ blankBeforeStar.spaceIndentation? = none ∧
      ¬ ∀ t n, t.spaceIndentation? = some n ↔ FirstLine (fun s => isMisindented s.headLine) t n := by
  have hfirst : FirstLine (fun s => isMisindented s.headLine) blankBeforeStar 0 :=
    ⟨⟨rfl, by decide⟩, by decide +kernel, fun m hm => absurd hm (Nat.not_lt_zero m)⟩
  have hnone : blankBeforeStar.spaceIndentation? = none := by decide +kernel
  refine ⟨hfirst, hnone, fun h => ?_⟩
  have := (h blankBeforeStar 0).2 hfirst
  rw [hnone] at this
  cases this

end Task

end SourceTidy
