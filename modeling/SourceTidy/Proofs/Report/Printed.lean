import Mathlib.Data.List.TakeWhile
import SourceTidy.Report.Status
import SourceTidy.Text.Utf8

/-!
# What can be printed

A text can be printed when it has no surrogates (`Utf8.surrogates?_eq_none_iff`). Printing breaks a text into lines and puts
blanks in place of tabs, and so it adds line ends and blanks and nothing else. So a line without styles can be printed when
its text can, and strings of characters and numbers always can.
-/

namespace SourceTidy

namespace Text

/-- A text without surrogates. -/
def IsClean (t : Text) : Prop := ∀ c ∈ t, c.isSurrogate = false

@[simp] theorem isClean_nil : IsClean [] := fun _ hc => absurd hc List.not_mem_nil

@[simp] theorem isClean_append {s t : Text} : (s ++ t).IsClean ↔ s.IsClean ∧ t.IsClean := List.forall_mem_append

/-- No character is a surrogate. -/
@[simp] theorem isClean_ofString (s : String) : (ofString s).IsClean := by
  intro c hc
  obtain ⟨ch, -, rfl⟩ := List.mem_map.1 hc
  have hvalid := ch.valid
  have hnumber : (CodePoint.ofChar ch).toNat = ch.val.toNat := rfl
  simp only [UInt32.isValidChar, Nat.isValidChar] at hvalid
  simp only [CodePoint.isSurrogate, hnumber, decide_eq_false_iff_not]
  omega

@[simp] theorem isClean_ofNat (n : Nat) : (ofNat n).IsClean := isClean_ofString _

theorem IsClean.join {separator : Text} (hseparator : separator.IsClean) {ts : List Text} (hts : ∀ t ∈ ts, t.IsClean) :
    (join separator ts).IsClean := by
  fun_induction Text.join separator ts with
  | case1 => exact isClean_nil
  | case2 t => exact hts t List.mem_cons_self
  | case3 t u rest ih =>
    have hrest := ih fun v hv => hts v (List.mem_cons_of_mem t hv)
    exact isClean_append.2 ⟨isClean_append.2 ⟨hts t List.mem_cons_self, hseparator⟩, hrest⟩

/-- The pieces between separators have no code points of their own. -/
theorem IsClean.split {separator : CodePoint} {t : Text} (ht : t.IsClean) : ∀ piece ∈ split separator t, piece.IsClean := by
  fun_induction Text.split separator t with
  | case1 => simp [IsClean]
  | case2 c rest hnil ih =>
    rw [List.forall_mem_singleton]
    exact fun d hd => ht d (List.mem_of_mem_take (i := 1) hd)
  | case3 rest piece pieces hsplit ih =>
    rw [hsplit] at ih
    have hrest := ih fun c hc => ht c (List.mem_cons_of_mem separator hc)
    exact List.forall_mem_cons.2 ⟨isClean_nil, hrest⟩
  | case4 c rest piece pieces hsplit hc ih =>
    rw [hsplit] at ih
    obtain ⟨hpiece, hpieces⟩ := List.forall_mem_cons.1 (ih fun d hd => ht d (List.mem_cons_of_mem c hd))
    exact List.forall_mem_cons.2 ⟨List.forall_mem_cons.2 ⟨ht c List.mem_cons_self, hpiece⟩, hpieces⟩

end Text

/-- A text without surrogates is one that can be printed. -/
theorem Utf8.surrogates?_eq_none_iff (t : Text) : Utf8.surrogates? t = none ↔ t.IsClean := by
  unfold Utf8.surrogates?
  cases hdrop : t.dropWhile (!·.isSurrogate) with
  | nil =>
    have hall := List.dropWhile_eq_nil_iff.1 hdrop
    simpa [Text.IsClean] using hall
  | cons c rest =>
    have hmem : c ∈ t := (List.dropWhile_sublist _).subset (hdrop ▸ List.mem_cons_self)
    have hhead := List.head?_dropWhile_not (fun c => !c.isSurrogate) t
    rw [hdrop] at hhead
    simp only [List.head?_cons] at hhead
    simp only [reduceCtorEq, false_iff]
    intro hclean
    rw [hclean c hmem] at hhead
    cases hhead

namespace Report
namespace Styled

/-- Pieces without styles and without surrogates. -/
def IsClean (s : Styled) : Prop := ∀ p ∈ s, p.style = none ∧ p.text.IsClean

theorem isClean_cons {p : Piece} {s : Styled} : IsClean (p :: s) ↔ (p.style = none ∧ p.text.IsClean) ∧ IsClean s :=
  List.forall_mem_cons

theorem isClean_append {s t : Styled} : IsClean (s ++ t) ↔ IsClean s ∧ IsClean t := List.forall_mem_append

theorem IsClean.split {sign : CodePoint} {s : Styled} (hs : s.IsClean) : ∀ part ∈ split sign s, IsClean part := by
  induction s with
  | nil => simp [Styled.split, IsClean]
  | cons p rest ih =>
    obtain ⟨⟨hstyle, htext⟩, hrest⟩ := isClean_cons.1 hs
    have hparts : ∀ q ∈ (Text.split sign p.text).map fun t => (⟨t, p.style⟩ : Piece), q.style = none ∧ q.text.IsClean := by
      intro q hq
      obtain ⟨t, ht, rfl⟩ := List.mem_map.1 hq
      exact ⟨hstyle, htext.split t ht⟩
    have ih := ih hrest
    simp only [Styled.split]
    split
    · rename_i last first others hlast hothers
      rw [hothers, List.forall_mem_cons] at ih
      intro part hpart
      rcases List.mem_append.1 hpart with hpart | hpart
      · obtain ⟨q, hq, rfl⟩ := List.mem_map.1 hpart
        exact List.forall_mem_singleton.2 (hparts q ((List.dropLast_sublist _).subset hq))
      · rcases List.mem_cons.1 hpart with rfl | hpart
        · exact isClean_cons.2 ⟨hparts last (List.mem_of_getLast? hlast), ih.1⟩
        · exact ih.2 part hpart
    · exact ih

theorem isClean_blanks (count : Nat) : Text.IsClean (List.replicate count (' ' : CodePoint)) := by
  intro c hc
  obtain rfl := List.eq_of_mem_replicate hc
  decide

theorem IsClean.fill {count : Nat} {s : Styled} (hs : s.IsClean) : (fill count s).IsClean := by
  fun_induction Styled.fill count s with
  | case1 => exact hs
  | case2 p =>
    obtain ⟨⟨hstyle, htext⟩, -⟩ := isClean_cons.1 hs
    exact List.forall_mem_singleton.2 ⟨hstyle, Text.isClean_append.2 ⟨htext, isClean_blanks count⟩⟩
  | case3 p rest hne ih =>
    obtain ⟨hp, hrest⟩ := isClean_cons.1 hs
    exact isClean_cons.2 ⟨hp, ih hrest⟩

theorem IsClean.expandParts {column : Nat} {parts : List Styled} (hparts : ∀ part ∈ parts, IsClean part) :
    (expandParts column parts).IsClean := by
  fun_induction Styled.expandParts column parts with
  | case1 => exact fun p hp => absurd hp List.not_mem_nil
  | case2 column part => exact hparts part List.mem_cons_self
  | case3 column part rest hne reached stop ih =>
    obtain ⟨hpart, hrest⟩ := List.forall_mem_cons.1 hparts
    exact isClean_append.2 ⟨hpart.fill, ih hrest⟩

/-- Clean pieces are printed as a clean text. -/
theorem IsClean.printed {s : Styled} (hs : s.IsClean) : s.printed.IsClean := by
  intro c hc
  obtain ⟨line, hline, hc⟩ := List.mem_flatMap.1 hc
  rcases List.mem_append.1 hc with hc | hc
  · have hexpanded : (expandTabs line).IsClean := IsClean.expandParts (hs.split line hline).split
    obtain ⟨p, hp, hc⟩ := List.mem_flatMap.1 hc
    obtain ⟨hstyle, htext⟩ := hexpanded p hp
    rw [printedPiece, hstyle] at hc
    exact htext c hc
  · obtain rfl := List.mem_singleton.1 hc
    decide

end Styled

/-- A status line can be printed when its message can. -/
theorem Status.isClean_line (s : Status) (emoji : Bool) {message : Text} (h : message.IsClean) :
    (s.line emoji message).IsClean := by
  have hsign : (if emoji then Text.ofString s.sign else []).IsClean := by
    split <;> simp
  have hshown := Text.isClean_append.2 ⟨hsign, h⟩
  refine Styled.IsClean.printed (List.forall_mem_singleton.2 ⟨rfl, fun c hc => ?_⟩)
  exact hshown c ((List.mem_filter.1 hc).1)

end Report
end SourceTidy
