import Mathlib
import SourceTidy.Proofs.Json.Numbers
import SourceTidy.Proofs.Php.Scans

/-!
# Values of JSON documents that are no containers

The reader takes words, strings and numbers (`isScalar_of_scalar`), and it takes each of them, apart from integers of too many
digits (`scalar_of_isScalar`). Where it gives up, the grammar is broken within the line, a number that JSON does not know is
named, or an integer has too many digits (`reason_of_scalar`).
-/

namespace SourceTidy.Json

open Text (lineFeed)

variable {t r s : Text} {p : CodePoint → Bool}

/-! ## Values that are no containers -/

/-- A value that is no container may start with it. -/
def startsScalar (c : CodePoint) : Bool :=
  c == quote || c == minus || c.isAsciiDigit || c == 'n' || c == 't' || c == 'f'

theorem IsScalar.exists_cons (h : IsScalar t) : ∃ c rest, t = c :: rest ∧ startsScalar c = true := by
  cases h with
  | word h =>
    have hwords : ∀ w ∈ words, w ≠ [] ∧ ∀ c ∈ w.head?, startsScalar c = true := by decide
    obtain ⟨c, rest, rfl⟩ := List.exists_cons_of_ne_nil (hwords t h).1
    exact ⟨c, rest, rfl, (hwords _ h).2 c rfl⟩
  | string h =>
    obtain ⟨i, -, rfl⟩ := h
    exact ⟨quote, _, rfl, rfl⟩
  | number h =>
    cases h with
    | parts hsign hdigits hfraction hexponent =>
      obtain ⟨c, rest, rfl, hc, -⟩ := hdigits.exists_cons
      cases hsign with
      | plus => exact ⟨c, _, rfl, by simp [startsScalar, hc]⟩
      | minus => exact ⟨minus, _, rfl, rfl⟩

/-- No word begins a number. -/
theorem not_isPrefix_of_digits {sign digits w : Text} (hw : w ∈ words ++ constants) (hsign : IsSign sign)
    (hdigits : IsDigits digits) (r : Text) : ¬ w <+: sign ++ (digits ++ r) := by
  have hwords : ∀ w ∈ words ++ constants, w ≠ [] ∧ unsigned w ≠ [] ∧ Stops CodePoint.isAsciiDigit (unsigned w) := by
    decide +kernel
  obtain ⟨hne, hne', hstops⟩ := hwords w hw
  rintro ⟨x, hx⟩
  have hunsigned : unsigned (w ++ x) = unsigned w ++ x := by
    obtain ⟨c, rest, rfl⟩ := List.exists_cons_of_ne_nil hne
    unfold unsigned
    rw [List.cons_append, List.head?_cons, List.head?_cons]
    split <;> rfl
  rw [hx, unsigned_append hsign hdigits] at hunsigned
  obtain ⟨c, rest, rfl, hc, -⟩ := hdigits.exists_cons
  obtain ⟨d, rest', heq⟩ := List.exists_cons_of_ne_nil hne'
  rw [heq] at hunsigned hstops
  obtain rfl : c = d := (List.cons.inj hunsigned).1
  rw [stops_cons, hc] at hstops
  cases hstops

theorem findSome?_eq_none_of_not_isPrefix {l : List Text} (h : ∀ w ∈ l, ¬ w <+: t) :
    l.findSome? (fun w => Text.dropPrefix? t w) = none := by
  refine List.findSome?_eq_none_iff.2 fun w hw => ?_
  rw [Option.eq_none_iff_forall_ne_some]
  intro rest hrest
  exact h w hw ⟨rest, ((Text.dropPrefix?_eq_some_iff w t rest).1 hrest).symm⟩

theorem find?_eq_none_of_not_isPrefix {l : List Text} (h : ∀ w ∈ l, ¬ w <+: t) :
    l.find? (fun w => Text.startsWith t w) = none := by
  refine List.find?_eq_none.2 fun w hw hstarts => ?_
  obtain ⟨rest, rfl⟩ := (Text.startsWith_iff t w).1 hstarts
  exact h w hw ⟨rest, rfl⟩

theorem scalar_of_digits {sign digits : Text} (hsign : IsSign sign) (hdigits : IsDigits digits) (r : Text) :
    scalar (sign ++ (digits ++ r)) = number (sign ++ (digits ++ r)) := by
  have hnone := fun w hw => not_isPrefix_of_digits (w := w) hw hsign hdigits r
  obtain ⟨c, rest, heq, hc⟩ : ∃ c rest, sign ++ (digits ++ r) = c :: rest ∧ c ≠ '"' := by
    obtain ⟨c, rest, rfl, hc, -⟩ := hdigits.exists_cons
    cases hsign with
    | plus =>
      refine ⟨c, _, rfl, ?_⟩
      rintro rfl
      exact absurd hc (by decide)
    | minus => exact ⟨minus, _, rfl, by decide⟩
  rw [heq] at hnone ⊢
  rw [scalar, if_neg hc, findSome?_eq_none_of_not_isPrefix fun w hw => hnone w (List.mem_append_left _ hw)]
  simp only
  rw [find?_eq_none_of_not_isPrefix fun w hw => hnone w (List.mem_append_right _ hw)]

theorem scalar_of_word {w : Text} (hw : w ∈ words) (r : Text) : scalar (w ++ r) = .ok r := by
  simp only [words, List.mem_cons, List.not_mem_nil, or_false] at hw
  rcases hw with rfl | rfl | rfl <;> cbv

theorem scalar_of_constant {w : Text} (hw : w ∈ constants) (r : Text) : scalar (w ++ r) = .error (.constant w) := by
  simp only [constants, List.mem_cons, List.not_mem_nil, or_false] at hw
  rcases hw with rfl | rfl | rfl <;> cbv

theorem isScalar_of_scalar (h : scalar t = .ok r) : ∃ v, IsScalar v ∧ t = v ++ r := by
  cases t with
  | nil => cases h
  | cons c rest =>
    rw [scalar] at h
    split at h
    · rename_i hquote
      obtain ⟨i, hi, rfl⟩ := inside_of_string h
      refine ⟨quote :: (i ++ [quote]), .string ⟨i, hi, rfl⟩, ?_⟩
      rw [hquote, List.cons_append, List.append_assoc, List.singleton_append]
    · split at h
      · rename_i rest' hword
        cases h
        obtain ⟨w, hw, hprefix⟩ := List.exists_of_findSome?_eq_some hword
        exact ⟨w, .word hw, (Text.dropPrefix?_eq_some_iff w _ _).1 hprefix⟩
      · split at h
        · cases h
        · obtain ⟨n, hn, ht⟩ := isNumber_of_number h
          exact ⟨n, .number hn, ht⟩

/-- Where the grammar is broken at the head of a text, or behind what is no line feed. -/
def BreaksInLine (t : Text) (e : Failure) : Prop := ∃ problem rest y, e = .broken problem rest ∧ t = y ++ rest ∧ lineFeed ∉ y

theorem breaksInLine_head (problem : Problem) (t : Text) : BreaksInLine t (.broken problem t) :=
  ⟨problem, t, [], rfl, rfl, List.not_mem_nil⟩

theorem breaksInLine_of_string {e : Failure} (h : string (quote :: t) t = .error e) : BreaksInLine (quote :: t) e := by
  obtain ⟨problem, rest, rfl, rfl | ⟨y, rfl, hy⟩⟩ := broken_of_string h
  · exact breaksInLine_head problem _
  · exact ⟨problem, rest, quote :: y, rfl, rfl, List.not_mem_cons_of_ne_of_not_mem (by decide) hy⟩

theorem reason_of_scalar {e : Failure} (h : scalar t = .error e) :
    BreaksInLine t e ∨ (∃ w ∈ constants, e = .constant w ∧ w <+: t) ∨
      (∃ count, e = .tooManyDigits count) ∧ LongInteger t := by
  cases t with
  | nil =>
    cases h
    exact .inl (breaksInLine_head .value [])
  | cons c rest =>
    rw [scalar] at h
    split at h
    · rename_i hquote
      subst hquote
      exact .inl (breaksInLine_of_string h)
    · split at h
      · cases h
      · split at h
        · rename_i w hfind
          cases h
          obtain ⟨more, hmore⟩ := (Text.startsWith_iff _ w).1 (List.find?_some hfind)
          exact .inr (.inl ⟨w, List.mem_of_find?_eq_some hfind, rfl, more, hmore.symm⟩)
        · rcases reason_of_number h with rfl | hlong
          · exact .inl (breaksInLine_head .value _)
          · exact .inr (.inr hlong)

theorem scalar_of_isScalar {v : Text} (hv : IsScalar v) (hr : Stops goesOn r) :
    scalar (v ++ r) = .ok r ∨ ∃ count, scalar (v ++ r) = .error (.tooManyDigits count) := by
  cases hv with
  | word h => exact .inl (scalar_of_word h r)
  | string h =>
    obtain ⟨i, hi, rfl⟩ := h
    left
    rw [List.cons_append, List.append_assoc, scalar, if_pos rfl]
    exact string_of_inside _ hi r
  | number h =>
    have hnumber := number_of_isNumber h hr
    cases h with
    | parts hsign hdigits hfraction hexponent =>
      simp only [List.append_assoc] at hnumber ⊢
      rwa [scalar_of_digits hsign hdigits.toIsDigits]

theorem scalar_of_longInteger (h : LongInteger t) : ∃ count, scalar t = .error (.tooManyDigits count) := by
  have hnumber := number_of_longInteger h
  cases h with
  | intro hsign hdigits hlong hend hfraction hexponent => rwa [scalar_of_digits hsign hdigits.toIsDigits]

theorem dropPrefix?_append {w : Text} (hw : lineFeed ∉ w) (ht : lineFeed ∈ t) (s : Text) :
    Text.dropPrefix? (t ++ s) w = (Text.dropPrefix? t w).map (· ++ s) := by
  induction w generalizing t with
  | nil => cases t <;> cases s <;> simp [Text.dropPrefix?]
  | cons p w ih =>
    obtain ⟨hp, hw⟩ := List.ne_and_not_mem_of_not_mem_cons hw
    cases t with
    | nil => cases ht
    | cons c t =>
      rw [List.cons_append, Text.dropPrefix?, Text.dropPrefix?]
      split
      · rename_i hc
        exact ih hw ((List.mem_cons.1 ht).resolve_left fun h => hp (h.trans hc))
      · rfl

theorem findSome?_append {l : List Text} (hl : ∀ w ∈ l, lineFeed ∉ w) (ht : lineFeed ∈ t) (s : Text) :
    l.findSome? (fun w => Text.dropPrefix? (t ++ s) w) = (l.findSome? fun w => Text.dropPrefix? t w).map (· ++ s) := by
  induction l with
  | nil => rfl
  | cons w l ih =>
    obtain ⟨hw, hl⟩ := List.forall_mem_cons.1 hl
    rw [List.findSome?_cons, List.findSome?_cons, dropPrefix?_append hw ht]
    cases Text.dropPrefix? t w with
    | none => exact ih hl
    | some rest => rfl

theorem find?_append {l : List Text} (hl : ∀ w ∈ l, lineFeed ∉ w) (ht : lineFeed ∈ t) (s : Text) :
    l.find? (fun w => Text.startsWith (t ++ s) w) = l.find? fun w => Text.startsWith t w := by
  refine List.find?_congr fun w hw => ?_
  rw [Text.startsWith, Text.startsWith, dropPrefix?_append (hl w hw) ht, Option.isSome_map]

/-- What is read at a value that is no container is settled by the first line. -/
theorem scalar_append (ht : lineFeed ∈ t) (s : Text) : scalar (t ++ s) = extend s (· ++ s) (scalar t) := by
  cases t with
  | nil => cases ht
  | cons c rest =>
    have hnumber := number_append ht s
    have hwords := findSome?_append (l := words) (by decide) ht s
    have hconstants := find?_append (l := constants) (by decide) ht s
    rw [List.cons_append] at hnumber hwords hconstants ⊢
    rw [scalar, scalar]
    split
    · rename_i hquote
      subst hquote
      exact string_append (quote :: rest) ((List.mem_cons.1 ht).resolve_left (by decide)) s
    · rw [hwords]
      cases words.findSome? fun w => Text.dropPrefix? (c :: rest) w with
      | some rest' => rfl
      | none =>
        simp only [Option.map_none]
        rw [hconstants]
        cases constants.find? fun w => Text.startsWith (c :: rest) w with
        | some w => rfl
        | none => exact hnumber

end SourceTidy.Json
