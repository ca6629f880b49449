import SourceTidy.Proofs.Glob.Brackets
import SourceTidy.Proofs.Glob.Wildcard

/-!
# The rules of the shell

What a wildcard covers is said of its written form here, sign by sign (`Shell.Covers`), with the meaning of question marks
and of brackets left open. Reading the text into atoms and matching these against a name comes to the same
(`fits_ofText_iff`), with the sets that brackets are given there.
-/

namespace SourceTidy

namespace Brackets

/-- The brackets that are open before a text are closed in it. -/
def IsClosed (t : Text) : Prop := ∃ contents rest, IsContents contents ∧ t = contents ++ (']' : CodePoint) :: rest

/-! ## Where brackets close -/

/-- What stands at the start of contents and is no sign of their end: an exclamation mark and a closing bracket. -/
def IsOpening (start rest : Text) : Prop :=
  start = [] ∧ rest.head? ≠ some ('!' : CodePoint) ∧ rest.head? ≠ some (']' : CodePoint) ∨
    start = [(']' : CodePoint)] ∨
    start = [('!' : CodePoint)] ∧ rest.head? ≠ some (']' : CodePoint) ∨
    start = [('!' : CodePoint), (']' : CodePoint)]

theorem exists_isOpening (t : Text) : ∃ start rest, t = start ++ rest ∧ IsOpening start rest := by
  match t with
  | [] => exact ⟨[], [], rfl, .inl ⟨rfl, by simp, by simp⟩⟩
  | c :: rest =>
    by_cases hclosing : c = ']'
    · exact ⟨[c], rest, rfl, .inr (.inl (by rw [hclosing]))⟩
    by_cases hnegation : c = '!'
    · match rest with
      | [] => exact ⟨[c], [], rfl, .inr (.inr (.inl ⟨by rw [hnegation], by simp⟩))⟩
      | d :: rest =>
        by_cases hd : d = ']'
        · exact ⟨[c, d], rest, rfl, .inr (.inr (.inr (by rw [hnegation, hd])))⟩
        · exact ⟨[c], d :: rest, rfl, .inr (.inr (.inl ⟨by rw [hnegation], by simpa using hd⟩))⟩
    · exact ⟨[], c :: rest, rfl, .inl ⟨rfl, by simpa using hnegation, by simpa using hclosing⟩⟩

/-- Behind their start, contents go up to the first closing bracket. -/
theorem isContents_append_iff {start more rest : Text} (h : IsOpening start (more ++ (']' : CodePoint) :: rest)) :
    IsContents (start ++ more) ↔ (']' : CodePoint) ∉ more := by
  have hmore (hclosing : (more ++ (']' : CodePoint) :: rest).head? ≠ some (']' : CodePoint)) :
      ∃ c t, more = c :: t ∧ (']' : CodePoint) ≠ c := by
    cases more with
    | nil => exact absurd rfl hclosing
    | cons c t => exact ⟨c, t, rfl, fun hc => hclosing (by rw [hc]; rfl)⟩
  rcases h with ⟨rfl, hnegation, hclosing⟩ | rfl | ⟨rfl, hclosing⟩ | rfl
  · obtain ⟨c, t, rfl, hc⟩ := hmore hclosing
    have hnegated : isNegated (c :: t) = false := by simpa [isNegated] using hnegation
    simp [IsContents, listed, hnegated, hc]
  · have hne : (']' : CodePoint) ≠ '!' := by decide
    simp [IsContents, listed, isNegated, hne]
  · obtain ⟨c, t, rfl, hc⟩ := hmore hclosing
    simp [IsContents, listed, isNegated, hc]
  · simp [IsContents, listed, isNegated]

/-- What stands at the start of contents stands there whatever follows them. -/
theorem IsOpening.append {start more : Text} (h : IsOpening start more) (hcontents : IsContents (start ++ more))
    (rest : Text) : IsOpening start (more ++ rest) := by
  have hne : more = [] → start ≠ [] ∧ start ≠ [('!' : CodePoint)] := by
    rintro rfl
    exact ⟨fun hstart => hcontents.1 (by rw [hstart]; rfl), fun hstart => hcontents.1 (by rw [hstart]; rfl)⟩
  cases more with
  | nil =>
    rcases h with ⟨hstart, -⟩ | h | ⟨hstart, -⟩ | h
    · exact absurd hstart (hne rfl).1
    · exact .inr (.inl h)
    · exact absurd hstart (hne rfl).2
    · exact .inr (.inr (.inr h))
  | cons c more => exact h

end Brackets

namespace Wildcard

open Brackets

theorem findIdx?_closing_iff (t : Text) (n : Nat) :
    (t.findIdx? fun c : CodePoint => c == ']') = some n ↔
      ∃ more rest, t = more ++ (']' : CodePoint) :: rest ∧ (']' : CodePoint) ∉ more ∧ more.length = n := by
  induction t generalizing n with
  | nil => simp
  | cons c t ih =>
    rw [List.findIdx?_cons]
    split
    · rename_i hc
      obtain rfl := beq_iff_eq.1 hc
      constructor
      · rintro ⟨⟩
        exact ⟨[], t, rfl, List.not_mem_nil, rfl⟩
      · rintro ⟨more, rest, heq, hmore, rfl⟩
        cases more with
        | nil => rfl
        | cons d more =>
          obtain ⟨rfl, -⟩ := List.cons.inj heq
          exact absurd List.mem_cons_self hmore
    · rename_i hc
      rw [beq_iff_eq] at hc
      rw [Option.map_eq_some_iff]
      constructor
      · rintro ⟨k, hk, rfl⟩
        obtain ⟨more, rest, rfl, hmore, rfl⟩ := (ih k).1 hk
        exact ⟨c :: more, rest, rfl, List.not_mem_cons_of_ne_of_not_mem (Ne.symm hc) hmore, rfl⟩
      · rintro ⟨more, rest, heq, hmore, rfl⟩
        cases more with
        | nil => exact absurd (List.cons.inj heq).1 hc
        | cons d more =>
          obtain ⟨rfl, rfl⟩ := List.cons.inj heq
          exact ⟨more.length, (ih _).2 ⟨more, rest, rfl, fun h => hmore (List.mem_cons_of_mem c h), rfl⟩, rfl⟩

theorem bracket?_append {start rest : Text} (h : IsOpening start rest) :
    bracket? (start ++ rest) =
      (rest.findIdx? fun c : CodePoint => c == ']').map fun n => (start ++ rest.take n, rest.drop (n + 1)) := by
  have hne : (']' : CodePoint) ≠ '!' := by decide
  rcases h with ⟨rfl, hnegation, hclosing⟩ | rfl | ⟨rfl, hclosing⟩ | rfl
  · simp [bracket?, hnegation, hclosing]
  · simp [bracket?, hne, Nat.add_comm 1]
  · simp [bracket?, hclosing, Nat.add_comm 1]
  · simp [bracket?, Nat.add_comm 2]

/-- Brackets that are open close behind their contents. -/
theorem bracket?_eq_some_iff (t contents rest : Text) :
    bracket? t = some (contents, rest) ↔ IsContents contents ∧ t = contents ++ (']' : CodePoint) :: rest := by
  constructor
  · intro h
    obtain ⟨start, u, rfl, hstart⟩ := exists_isOpening t
    rw [bracket?_append hstart, Option.map_eq_some_iff] at h
    obtain ⟨n, hn, hpair⟩ := h
    obtain ⟨more, rest', rfl, hmore, rfl⟩ := (findIdx?_closing_iff u n).1 hn
    cases hpair
    simp [(isContents_append_iff hstart).2 hmore]
  · rintro ⟨hcontents, rfl⟩
    obtain ⟨start, more, rfl, hopening⟩ := exists_isOpening contents
    have hstart := hopening.append hcontents ((']' : CodePoint) :: rest)
    have hmore := (isContents_append_iff hstart).1 hcontents
    rw [List.append_assoc, bracket?_append hstart, (findIdx?_closing_iff _ _).2 ⟨more, rest, rfl, hmore, rfl⟩]
    simp

/-- Brackets close in one place only. -/
theorem eq_of_contents_append_eq {contents others t u : Text} (h : IsContents contents) (h' : IsContents others)
    (heq : contents ++ (']' : CodePoint) :: t = others ++ (']' : CodePoint) :: u) : contents = others ∧ t = u := by
  have hcontents := (bracket?_eq_some_iff _ contents t).2 ⟨h, rfl⟩
  have hothers := (bracket?_eq_some_iff _ others u).2 ⟨h', heq⟩
  exact Prod.mk.inj (Option.some.inj (hcontents.symm.trans hothers))

/-! ## Reading a text into atoms -/

theorem ofTextAfter_append (skipped t : Text) : ofTextAfter skipped.length (skipped ++ t) = ofText t := by
  induction skipped with
  | nil => rfl
  | cons c skipped ih => exact ih

@[simp] theorem ofText_nil : ofText [] = [] := rfl

@[simp] theorem ofText_star (t : Text) : ofText (('*' : CodePoint) :: t) = .star :: ofText t := rfl

@[simp] theorem ofText_any (t : Text) : ofText (('?' : CodePoint) :: t) = .any :: ofText t := rfl

theorem ofText_brackets {contents : Text} (h : IsContents contents) (t : Text) :
    ofText (('[' : CodePoint) :: (contents ++ (']' : CodePoint) :: t)) = setOf contents :: ofText t := by
  have hrest := ofTextAfter_append (contents ++ [(']' : CodePoint)]) t
  rw [List.length_append, List.append_assoc] at hrest
  rw [ofText, ofTextAfter, if_neg (by decide), if_neg (by decide), if_pos rfl,
    (bracket?_eq_some_iff _ contents t).2 ⟨h, rfl⟩, ← hrest]
  rfl

theorem ofText_literal {c : CodePoint} {t : Text} (hstar : c ≠ '*') (hany : c ≠ '?') (hopen : c = '[' → ¬ IsClosed t) :
    ofText (c :: t) = .literal c :: ofText t := by
  rw [ofText, ofTextAfter, if_neg hstar, if_neg hany]
  split
  · rename_i hc
    have hnone : bracket? t = none := by
      rw [Option.eq_none_iff_forall_not_mem]
      rintro ⟨contents, rest⟩ hsome
      exact hopen hc ⟨contents, rest, (bracket?_eq_some_iff t contents rest).1 hsome⟩
    rw [hnone]
    rfl
  · rfl

end Wildcard

/-! ## What a written wildcard covers -/

namespace Shell

open Brackets

/-- What stands for one code point without being one. -/
structure Reading where
  /-- What a question mark stands for. -/
  any : CodePoint → Prop
  /-- What brackets with some contents stand for. -/
  set : Text → CodePoint → Prop

/-- `Covers r t name`: the name is what the written wildcard `t` stands for, sign by sign. -/
inductive Covers (r : Reading) : Text → Text → Prop where
  | nil : Covers r [] []
  /-- A star stands for any text. -/
  | star (s : Text) {t name : Text} : Covers r t name → Covers r (('*' : CodePoint) :: t) (s ++ name)
  | any {c : CodePoint} {t name : Text} : r.any c → Covers r t name → Covers r (('?' : CodePoint) :: t) (c :: name)
  | brackets {contents : Text} {c : CodePoint} {t name : Text} : IsContents contents → r.set contents c → Covers r t name →
      Covers r (('[' : CodePoint) :: (contents ++ (']' : CodePoint) :: t)) (c :: name)
  /-- Everything else stands for itself, and so does an opening bracket that is never closed. -/
  | literal {c : CodePoint} {t name : Text} : c ≠ '*' → c ≠ '?' → (c = '[' → ¬ IsClosed t) → Covers r t name →
      Covers r (c :: t) (c :: name)

theorem covers_nil_iff {r : Reading} {name : Text} : Covers r [] name ↔ name = [] := by
  constructor
  · intro h
    cases h
    rfl
  · rintro rfl
    exact .nil

theorem covers_star_iff {r : Reading} {t name : Text} :
    Covers r (('*' : CodePoint) :: t) name ↔ ∃ s rest, name = s ++ rest ∧ Covers r t rest := by
  constructor
  · intro h
    cases h with
    | star s ht => exact ⟨s, _, rfl, ht⟩
    | literal hstar => exact absurd rfl hstar
  · rintro ⟨s, rest, rfl, ht⟩
    exact .star s ht

theorem covers_brackets_iff {r : Reading} {contents : Text} (h : IsContents contents) (t name : Text) :
    Covers r (('[' : CodePoint) :: (contents ++ (']' : CodePoint) :: t)) name ↔
      ∃ c rest, name = c :: rest ∧ r.set contents c ∧ Covers r t rest := by
  constructor
  · intro hcovers
    generalize hbehind : contents ++ (']' : CodePoint) :: t = behind at hcovers
    cases hcovers with
    | brackets hothers hc ht =>
      obtain ⟨rfl, rfl⟩ := Wildcard.eq_of_contents_append_eq h hothers hbehind
      exact ⟨_, _, rfl, hc, ht⟩
    | literal _ _ hopen _ => exact absurd ⟨contents, t, h, hbehind.symm⟩ (hopen rfl)
  · rintro ⟨c, rest, rfl, hc, ht⟩
    exact .brackets h hc ht

/-- `HasBrackets contents t`: in the written wildcard `t` there are brackets with these contents. -/
inductive HasBrackets (contents : Text) : Text → Prop where
  | here {t : Text} : IsContents contents → HasBrackets contents (('[' : CodePoint) :: (contents ++ (']' : CodePoint) :: t))
  | behind {others t : Text} : IsContents others → HasBrackets contents t →
      HasBrackets contents (('[' : CodePoint) :: (others ++ (']' : CodePoint) :: t))
  | later {c : CodePoint} {t : Text} : (c = '[' → ¬ IsClosed t) → HasBrackets contents t → HasBrackets contents (c :: t)

/-- More is covered under a reading that gives more to question marks and to the brackets that there are. -/
theorem Covers.imp {r r' : Reading} {t name : Text} (h : Covers r t name) (hany : ∀ c, r.any c → r'.any c)
    (hset : ∀ contents, HasBrackets contents t → ∀ c, r.set contents c → r'.set contents c) : Covers r' t name := by
  have hsign {c : CodePoint} {t : Text} (hopen : c ≠ '[')
      (hset : ∀ contents, HasBrackets contents (c :: t) → ∀ d, r.set contents d → r'.set contents d) :
      ∀ contents, HasBrackets contents t → ∀ d, r.set contents d → r'.set contents d :=
    fun contents hhas => hset contents (.later (fun hc => absurd hc hopen) hhas)
  induction h with
  | nil => exact .nil
  | star s _ ih => exact .star s (ih (hsign (by decide) hset))
  | any hc _ ih => exact .any (hany _ hc) (ih (hsign (by decide) hset))
  | brackets hcontents hc _ ih =>
    exact .brackets hcontents (hset _ (.here hcontents) _ hc)
      (ih fun contents hhas => hset contents (.behind hcontents hhas))
  | literal hstar hsingle hopen _ ih =>
    exact .literal hstar hsingle hopen (ih fun contents hhas => hset contents (.later hopen hhas))

/-- Without brackets that are read otherwise, two readings cover the same. -/
theorem covers_congr (r r' : Reading) {t : Text} (hany : ∀ c, r.any c ↔ r'.any c)
    (hset : ∀ contents, HasBrackets contents t → ∀ c, r.set contents c ↔ r'.set contents c) (name : Text) :
    Covers r t name ↔ Covers r' t name :=
  ⟨fun h => h.imp (fun c => (hany c).1) fun contents hhas c => (hset contents hhas c).1,
    fun h => h.imp (fun c => (hany c).2) fun contents hhas c => (hset contents hhas c).2⟩

theorem not_hasBrackets_nil (contents : Text) : ¬ HasBrackets contents [] := fun h => nomatch h

theorem hasBrackets_brackets_iff {contents : Text} (h : IsContents contents) (others t : Text) :
    HasBrackets others (('[' : CodePoint) :: (contents ++ (']' : CodePoint) :: t)) ↔
      others = contents ∨ HasBrackets others t := by
  constructor
  · intro hhas
    generalize hbehind : contents ++ (']' : CodePoint) :: t = behind at hhas
    cases hhas with
    | here hothers => exact .inl (Wildcard.eq_of_contents_append_eq h hothers hbehind).1.symm
    | behind hmore hhas =>
      obtain ⟨-, rfl⟩ := Wildcard.eq_of_contents_append_eq h hmore hbehind
      exact .inr hhas
    | later hopen _ => exact absurd ⟨contents, t, h, hbehind.symm⟩ (hopen rfl)
  · rintro (rfl | hhas)
    · exact .here h
    · exact .behind h hhas

theorem hasBrackets_cons_iff {c : CodePoint} {t : Text} (h : c = '[' → ¬ IsClosed t) (contents : Text) :
    HasBrackets contents (c :: t) ↔ HasBrackets contents t := by
  constructor
  · intro hhas
    cases hhas with
    | here hcontents => exact absurd ⟨_, _, hcontents, rfl⟩ (h rfl)
    | behind hothers _ => exact absurd ⟨_, _, hothers, rfl⟩ (h rfl)
    | later _ hhas => exact hhas
  · exact .later h

theorem hasBrackets_cons_iff_of_ne {c : CodePoint} (h : c ≠ '[') (t contents : Text) :
    HasBrackets contents (c :: t) ↔ HasBrackets contents t :=
  hasBrackets_cons_iff (fun hc => absurd hc h) contents

/-- Only contents stand in brackets. -/
theorem HasBrackets.isContents {contents t : Text} (h : HasBrackets contents t) : IsContents contents := by
  induction h with
  | here hcontents => exact hcontents
  | behind _ _ ih => exact ih
  | later _ _ ih => exact ih

end Shell

namespace Wildcard

open Brackets Shell

/-- The reading that gives brackets the set of their atom. -/
def asRead : Reading := ⟨fun _ => True, fun contents c => (setOf contents).holds c = true⟩

theorem covers_one_iff {a : Atom} (ha : a ≠ .star) (w : Wildcard) (name : Text) :
    Covers (a :: w) name ↔ ∃ c rest, name = c :: rest ∧ a.holds c = true ∧ Covers w rest := by
  constructor
  · intro h
    cases h with
    | star => exact absurd rfl ha
    | one hc hw => exact ⟨_, _, rfl, hc, hw⟩
  · rintro ⟨c, rest, rfl, hc, hw⟩
    exact .one hc hw

theorem setOf_ne_star (contents : Text) : setOf contents ≠ .star := by
  intro h
  simp only [setOf] at h
  split at h
  · split at h <;> cases h
  · cases h

/-- Matching the atoms of a text against a name decides what the text covers. -/
theorem fits_ofText_iff (t name : Text) : fits (ofText t) name = true ↔ Shell.Covers asRead t name := by
  rw [fits_iff_covers]
  constructor
  · intro h
    -- Brackets are read at once, so what is left of the text is shorter by any number of code points.
    induction hn : t.length using Nat.strongRecOn generalizing t name with
    | _ n ih =>
      match t with
      | [] =>
        cases h
        exact .nil
      | c :: t =>
        rw [List.length_cons] at hn
        by_cases hstar : c = '*'
        · subst hstar
          rw [ofText_star, covers_star_iff] at h
          obtain ⟨s, rest, rfl, hrest⟩ := h
          exact .star s (ih t.length (by omega) t rest hrest rfl)
        by_cases hany : c = '?'
        · subst hany
          rw [ofText_any, covers_one_iff (a := .any) (by simp)] at h
          obtain ⟨d, rest, rfl, -, hrest⟩ := h
          exact .any trivial (ih t.length (by omega) t rest hrest rfl)
        by_cases hopen : c = '[' ∧ IsClosed t
        · obtain ⟨rfl, contents, t, hcontents, rfl⟩ := hopen
          rw [ofText_brackets hcontents, covers_one_iff (setOf_ne_star contents)] at h
          obtain ⟨d, rest, rfl, hd, hrest⟩ := h
          rw [List.length_append, List.length_cons] at hn
          exact .brackets hcontents hd (ih t.length (by omega) t rest hrest rfl)
        · have hliteral : c = '[' → ¬ IsClosed t := fun hc hclosed => hopen ⟨hc, hclosed⟩
          rw [ofText_literal hstar hany hliteral, covers_one_iff (a := .literal c) (by simp)] at h
          obtain ⟨d, rest, rfl, hd, hrest⟩ := h
          obtain rfl := beq_iff_eq.1 hd
          exact .literal hstar hany hliteral (ih t.length (by omega) t rest hrest rfl)
  · intro h
    induction h with
    | nil => exact .nil
    | star s _ ih => exact .star s ih
    | any _ _ ih => exact .one rfl ih
    | brackets hcontents hc _ ih =>
      rw [ofText_brackets hcontents]
      exact .one hc ih
    | literal hstar hany hopen _ ih =>
      rw [ofText_literal hstar hany hopen]
      exact .one (beq_self_eq_true _) ih

end Wildcard
end SourceTidy
