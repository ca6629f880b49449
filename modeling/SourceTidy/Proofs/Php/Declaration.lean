import Mathlib.Data.List.Induction
import Mathlib.Data.List.TakeWhile
import SourceTidy.Proofs.Php.Scans
import SourceTidy.Proofs.Php.ShortArrays

/-!
# The declaration of strict types in an edited source

Arrays are written with brackets before the declaration of strict types is looked for. The declaration holds no brackets, so where
it stands after the edits it stood before (`checkStrictTypes_of_fixArrays`): what an edit puts in its place is no part of it, and
where an edit ends before it, a parenthesis did, so that no word went on there either.
-/

namespace SourceTidy

namespace Php

/-! ## Scans of a head -/

/-- A scan that depends on nothing but the head of a text that it takes: the head is not empty, none of its code points belongs to
a class, and the scan takes it whatever follows. -/
def Scan.TakesHead (avoided : CodePoint → Bool) (k : Scan) : Prop :=
  ∀ t, (k t).isSome = true → ∃ head rest, t = head ++ rest ∧ head ≠ [] ∧ (∀ c ∈ head, avoided c = false) ∧
    ∀ rest', (k (head ++ rest')).isSome = true

namespace Scan

theorem isSome_exact (s t : Text) : (exact s t).isSome = true ↔ ∃ rest, t = s ++ rest := by
  simp [Option.isSome_iff_exists, exact_eq_some_iff]

theorem isSome_andThen (a k : Scan) (t : Text) :
    (andThen a k t).isSome = true ↔ ∃ n, a t = some n ∧ (k (t.drop n)).isSome = true := by
  cases ha : a t with
  | none => simp [andThen, ha]
  | some n => cases hk : k (t.drop n) <;> simp [andThen, ha, hk]

theorem isSome_andThen_exact (s : Text) (k : Scan) (t : Text) :
    (andThen (exact s) k t).isSome = true ↔ ∃ rest, t = s ++ rest ∧ (k rest).isSome = true := by
  simp only [isSome_andThen, exact_eq_some_iff]
  constructor
  · rintro ⟨n, ⟨⟨rest, rfl⟩, rfl⟩, hk⟩
    rw [List.drop_left] at hk
    exact ⟨rest, rfl, hk⟩
  · rintro ⟨rest, rfl, hk⟩
    exact ⟨s.length, ⟨⟨rest, rfl⟩, rfl⟩, by rwa [List.drop_left]⟩

theorem isSome_andThen_blanks (k : Scan) (t : Text) :
    (andThen blanks k t).isSome = (k (t.dropWhile CodePoint.isBlank)).isSome := by
  have hdrop : (t.takeWhile CodePoint.isBlank ++ t.dropWhile CodePoint.isBlank).drop
      (t.takeWhile CodePoint.isBlank).length = t.dropWhile CodePoint.isBlank := List.drop_left
  rw [List.takeWhile_append_dropWhile] at hdrop
  rw [Bool.eq_iff_iff, isSome_andThen]
  constructor
  · rintro ⟨n, hn, hk⟩
    cases hn
    rwa [hdrop] at hk
  · exact fun hk => ⟨_, rfl, by rwa [hdrop]⟩

end Scan

namespace Scan.TakesHead

variable {avoided : CodePoint → Bool} {k : Scan}

theorem exact {s : Text} (hne : s ≠ []) (hs : ∀ c ∈ s, avoided c = false) : TakesHead avoided (.exact s) := by
  intro t ht
  obtain ⟨rest, rfl⟩ := (isSome_exact s t).1 ht
  exact ⟨s, rest, rfl, hne, hs, fun rest' => (isSome_exact s _).2 ⟨rest', rfl⟩⟩

theorem andThen_exact (hk : k.TakesHead avoided) {s : Text} (hs : ∀ c ∈ s, avoided c = false) :
    TakesHead avoided (.andThen (.exact s) k) := by
  intro t ht
  obtain ⟨after, rfl, hafter⟩ := (isSome_andThen_exact s k t).1 ht
  obtain ⟨head, rest, rfl, hne, hhead, htakes⟩ := hk after hafter
  refine ⟨s ++ head, rest, by simp, by simp [hne], List.forall_mem_append.2 ⟨hs, hhead⟩, fun rest' => ?_⟩
  exact (isSome_andThen_exact s k _).2 ⟨head ++ rest', by simp, htakes rest'⟩

/-- Blanks are taken up to the head of what comes after them, which is no blank. -/
theorem andThen_blanks (hk : k.TakesHead avoided) (hblanks : ∀ c, c.isBlank = true → avoided c = false) :
    TakesHead avoided (.andThen blanks k) := by
  intro t ht
  rw [isSome_andThen_blanks] at ht
  obtain ⟨head, rest, hdrop, hne, hhead, htakes⟩ := hk _ ht
  obtain ⟨c, head, rfl⟩ := List.exists_cons_of_ne_nil hne
  have hc : c.isBlank = false := by
    have := List.head?_dropWhile_not CodePoint.isBlank t
    simpa [hdrop] using this
  have hblank : ∀ d ∈ t.takeWhile CodePoint.isBlank, d.isBlank = true := fun d hd => List.mem_takeWhile_imp hd
  refine ⟨t.takeWhile CodePoint.isBlank ++ c :: head, rest, ?_, by simp, ?_, fun rest' => ?_⟩
  · rw [List.append_assoc, ← hdrop, List.takeWhile_append_dropWhile]
  · exact List.forall_mem_append.2 ⟨fun d hd => hblanks d (hblank d hd), hhead⟩
  · rw [isSome_andThen_blanks, List.append_assoc, List.dropWhile_append_of_pos hblank, List.cons_append,
      List.dropWhile_cons_of_neg (by simp [hc])]
    exact htakes rest'

end Scan.TakesHead

/-! ## Places in an edited source -/

/-- Some code points stand in a text, and not in the middle of a word that has begun before them. -/
def BeginsIn (head t : Text) : Prop :=
  ∃ front rest, t = front ++ (head ++ rest) ∧ front.getLast?.any CodePoint.isWord = false

/-- Whether a code point is one of the brackets that an array is written with. -/
def isBracket (c : CodePoint) : Bool := c == '[' || c == ']'

/-- Where a bracket has taken the place of the end of a text that did not end in a word, what holds no bracket begins where it
began before. -/
theorem BeginsIn.of_edited {head kept gone rest : Text} {bracket : CodePoint} (hbracket : bracket ∉ head)
    (hword : (kept ++ gone).getLast?.any CodePoint.isWord = false) (h : BeginsIn head (kept ++ bracket :: rest)) :
    BeginsIn head (kept ++ gone ++ rest) := by
  obtain ⟨front, after, heq, hfront⟩ := h
  -- It begins behind the bracket, or it ends before it, or the bracket is part of it.
  rcases List.append_eq_append_iff.1 heq with ⟨m, rfl, hm⟩ | ⟨m, rfl, hm⟩
  · rcases List.cons_eq_append_iff.1 hm with ⟨rfl, hhead⟩ | ⟨m, rfl, rfl⟩
    · rcases List.append_eq_cons_iff.1 hhead with ⟨rfl, -⟩ | ⟨head, rfl, -⟩
      · exact ⟨[], _, rfl, rfl⟩
      · exact absurd List.mem_cons_self hbracket
    · refine ⟨kept ++ gone ++ m, after, by simp, ?_⟩
      cases m using List.reverseRecOn with
      | nil => rwa [List.append_nil]
      | append_singleton m d _ =>
        rw [← List.cons_append, ← List.append_assoc, List.getLast?_concat] at hfront
        rwa [← List.append_assoc, List.getLast?_concat]
  · rcases List.append_eq_append_iff.1 hm with ⟨q, rfl, -⟩ | ⟨q, rfl, hq⟩
    · exact ⟨front, q ++ gone ++ rest, by simp, hfront⟩
    · rcases List.cons_eq_append_iff.1 hq with ⟨rfl, -⟩ | ⟨q, rfl, -⟩
      · exact ⟨front, gone ++ rest, by simp, hfront⟩
      · exact absurd (List.mem_append_right m List.mem_cons_self) hbracket

/-- An edit puts a bracket in the place of what ends in a parenthesis. -/
theorem Replaces.bracket_and_end {t : Text} {e : Edit} (h : Replaces t e) :
    isBracket e.replacement = true ∧ (t.take e.stop).getLast?.any CodePoint.isWord = false := by
  cases h with
  | @opening before word trivia rest h hword =>
    have hstop : t.take ((before ++ word ++ trivia).length + 1) = before ++ word ++ trivia ++ [('(' : CodePoint)] := by
      rw [h, List.take_length_add_append]
      rfl
    refine ⟨rfl, ?_⟩
    rw [hstop, List.getLast?_concat]
    rfl
  | @closing before rest h =>
    have hstop : t.take (before.length + 1) = before ++ [(')' : CodePoint)] := by
      rw [h, List.take_length_add_append]
      rfl
    refine ⟨rfl, ?_⟩
    rw [hstop, List.getLast?_concat]
    rfl

/-- What holds no brackets begins in a source where it begins in it after the edits that make arrays short. -/
theorem BeginsIn.of_applyAll {head : Text} (hhead : ∀ c ∈ head, isBracket c = false) {low high : Nat} {es : List Edit}
    {t : Text} (h : Between low es high) (ht : high ≤ t.length) (hreplaces : ∀ e ∈ es, Replaces t e)
    (hbegins : BeginsIn head (Edit.applyAll es t)) : BeginsIn head t := by
  induction h with
  | nil h => exact hbegins
  | @cons low high e es hlow hspan tail ih =>
    refine ih ht (fun f hf => hreplaces f (List.mem_cons_of_mem e hf)) ?_
    obtain ⟨hbracket, hword⟩ := (hreplaces e List.mem_cons_self).bracket_and_end
    obtain ⟨rest, hes, heses⟩ := Edit.applyAll_cons (.cons hlow hspan tail) ht
    have hkept : (t.take e.stop).take e.start = t.take e.start := by
      rw [List.take_take, Nat.min_eq_left (Nat.le_of_lt hspan)]
    have hgone : t.take e.start ++ (t.take e.stop).drop e.start = t.take e.stop := by
      rw [← hkept, List.take_append_drop]
    rw [heses] at hbegins
    rw [hes, ← hgone]
    refine hbegins.of_edited (fun hmem => ?_) (by rwa [hgone])
    rw [hhead _ hmem] at hbracket
    cases hbracket

end Php

namespace Task

open SourceTidy.Php (Scan)

/-! ## The declaration -/

theorem takesHead_strictTypes : Scan.TakesHead Php.isBracket strictTypes := by
  have hblanks (c : CodePoint) (hc : c.isBlank = true) : Php.isBracket c = false := by
    rw [← Bool.not_eq_true]
    intro hbracket
    rw [Php.isBracket, Bool.or_eq_true, beq_iff_eq, beq_iff_eq] at hbracket
    rcases hbracket with rfl | rfl <;> exact absurd hc (by decide)
  have hclosing : Scan.TakesHead Php.isBracket (.exact ")") := .exact (by decide) (by decide)
  exact (((((((hclosing.andThen_blanks hblanks).andThen_exact (by decide)).andThen_blanks hblanks).andThen_exact
    (by decide)).andThen_blanks hblanks).andThen_exact (by decide)).andThen_blanks hblanks).andThen_exact (by decide)

/-- Strict types are declared where the scan of the declaration takes something, and no word goes on. -/
theorem declaresStrictTypes_iff (inWord : Bool) (t : Text) :
    declaresStrictTypes inWord t = true ↔ ∃ front rest, t = front ++ rest ∧ (strictTypes rest).isSome = true ∧
      (front.getLast?.map CodePoint.isWord).getD inWord = false := by
  induction t generalizing inWord with
  | nil =>
    refine iff_of_false Bool.false_ne_true ?_
    rintro ⟨front, rest, heq, hsome, -⟩
    rw [(List.append_eq_nil_iff.1 heq.symm).2] at hsome
    cases hsome
  | cons c t ih =>
    have hlast (front : Text) : ((c :: front).getLast?.map CodePoint.isWord).getD inWord =
        (front.getLast?.map CodePoint.isWord).getD c.isWord := by
      rw [List.getLast?_cons]
      cases front.getLast? <;> rfl
    rw [declaresStrictTypes, Bool.or_eq_true, Bool.and_eq_true, Bool.not_eq_true', ih]
    constructor
    · rintro (⟨hword, hsome⟩ | ⟨front, rest, rfl, hsome, hword⟩)
      · exact ⟨[], c :: t, rfl, hsome, hword⟩
      · exact ⟨c :: front, rest, rfl, hsome, (hlast front).trans hword⟩
    · rintro ⟨front, rest, heq, hsome, hword⟩
      rcases List.cons_eq_append_iff.1 heq with ⟨rfl, rfl⟩ | ⟨front, rfl, rfl⟩
      · exact .inl ⟨hword, hsome⟩
      · exact .inr ⟨front, rest, rfl, hsome, (hlast front).symm.trans hword⟩

/-- What the scan takes holds no brackets, and it may be followed by anything. -/
theorem declaresStrictTypes_iff_beginsIn (t : Text) :
    declaresStrictTypes false t = true ↔ ∃ head, (∀ c ∈ head, Php.isBracket c = false) ∧
      (∀ rest, (strictTypes (head ++ rest)).isSome = true) ∧ Php.BeginsIn head t := by
  have hword (front : Text) :
      (front.getLast?.map CodePoint.isWord).getD false = front.getLast?.any CodePoint.isWord := by
    cases front.getLast? <;> rfl
  simp only [declaresStrictTypes_iff, hword]
  constructor
  · rintro ⟨front, after, rfl, hsome, hfront⟩
    obtain ⟨head, rest, rfl, -, hhead, htakes⟩ := takesHead_strictTypes after hsome
    exact ⟨head, hhead, htakes, front, rest, rfl, hfront⟩
  · rintro ⟨head, -, htakes, front, rest, rfl, hfront⟩
    exact ⟨front, head ++ rest, rfl, htakes rest, hfront⟩

theorem checkStrictTypes_eq_nil_iff (t : Text) : checkStrictTypes t = [] ↔ declaresStrictTypes false t = true := by
  rw [checkStrictTypes]
  split
  · rename_i h
    exact iff_of_true rfl h
  · rename_i h
    exact iff_of_false (List.cons_ne_nil _ _) h

/-- Strict types that are declared when arrays have been made short were declared before. -/
theorem checkStrictTypes_of_fixArrays {ks : List Php.Token} {t : Text} (hks : Php.Tiles 0 ks t)
    (h : checkStrictTypes (fixArrays ks t).2 = []) : checkStrictTypes t = [] := by
  obtain ⟨hbetween, hreplaces⟩ := Php.ShortArrays.edits_spec hks
  rw [checkStrictTypes_eq_nil_iff, declaresStrictTypes_iff_beginsIn] at h ⊢
  obtain ⟨head, hhead, htakes, hbegins⟩ := h
  exact ⟨head, hhead, htakes, .of_applyAll hhead hbetween (Nat.le_refl _) hreplaces hbegins⟩

end Task

end SourceTidy
