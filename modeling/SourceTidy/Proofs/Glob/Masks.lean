import SourceTidy.Proofs.Glob.Folding
import SourceTidy.Proofs.Glob.MaskSet
import SourceTidy.Proofs.Text.Split

/-!
# What masks mean

A mask is written as some exclamation marks and then wildcards with commas between them (`Written`). It accepts the names
that one of its wildcards covers under the rules of the shell when both are folded or, with a mark, the names that none of
them covers, and a set of masks means what their wildcards mean together (`accepts_follows_shell_rules`). The rule for
brackets has a gap: a mark that only reversed ranges stand before negates what follows it
(`reversed_range_hides_negation`).

To fold both is not only to accept more. Negated brackets stand for less then, and so do ranges and signs that have to stand
for a code point which folds to several (`signs_lose_case`). What the signs keep stays accepted (`accepts_of_keeps`).
-/

namespace SourceTidy

namespace Mask

open Brackets Shell

/-- `Written mask marks parts`: the mask is written as exclamation marks and then the parts with commas between them. -/
structure Written (mask : Text) (marks : Nat) (parts : List Text) : Prop where
  text : mask = List.replicate marks negation ++ Text.join [separator] parts
  start : (Text.join [separator] parts).head? ≠ some negation
  nonempty : parts ≠ []
  separate : ∀ part ∈ parts, separator ∉ part

theorem dropWhile_negation_eq {t : Text} (h : t.head? ≠ some negation) : t.dropWhile (· == negation) = t := by
  cases t with
  | nil => rfl
  | cons c t =>
    rw [List.dropWhile_cons_of_neg]
    simpa using h

/-- Every mask is written that way, and its parts are the alternatives. -/
theorem exists_written (mask : Text) : ∃ marks, Written mask marks (alternatives mask) := by
  obtain ⟨hjoin, hpieces⟩ := Text.join_split separator (mask.dropWhile (· == negation))
  refine ⟨(mask.takeWhile (· == negation)).length, ?_, ?_, Text.split_ne_nil _ _, hpieces⟩
  · have hmarks : mask.takeWhile (· == negation) =
        List.replicate (mask.takeWhile (· == negation)).length negation :=
      List.eq_replicate_of_mem fun c hc => beq_iff_eq.1 (List.mem_takeWhile_imp (p := (· == negation)) hc)
    rw [alternatives, hjoin, ← hmarks, List.takeWhile_append_dropWhile]
  · rw [alternatives, hjoin]
    intro h
    have := List.head?_dropWhile_not (· == negation) mask
    rw [h] at this
    simp at this

namespace Written

variable {mask : Text} {marks : Nat} {parts : List Text} (h : Written mask marks parts)
include h

theorem alternatives_eq : alternatives mask = parts := by
  rw [alternatives, h.text, List.dropWhile_append_of_pos, dropWhile_negation_eq h.start,
    Text.split_join h.nonempty h.separate]
  intro c hc
  rw [List.eq_of_mem_replicate hc]
  exact beq_self_eq_true _

theorem isNegated_eq_false_iff : isNegated mask = false ↔ marks = 0 := by
  rw [isNegated, h.text, beq_eq_false_iff_ne]
  cases marks with
  | zero => simpa using h.start
  | succ marks => simp [List.replicate_succ]

/-- One more mark in front. -/
theorem negation_cons : Written (negation :: mask) (marks + 1) parts :=
  ⟨by rw [h.text, List.replicate_succ, List.cons_append], h.start, h.nonempty, h.separate⟩

/-- What a mask accepts, with brackets that are given the set of their atom. -/
theorem accepts_iff (name : Text) :
    accepts mask name = true ↔
      ((∃ part ∈ parts, Shell.Covers Wildcard.asRead part.caseFold name.caseFold) ↔ marks = 0) := by
  have hany : (parts.any (covers · name)) = true ↔
      ∃ part ∈ parts, Shell.Covers Wildcard.asRead part.caseFold name.caseFold := by
    rw [List.any_eq_true]
    simp only [covers, Wildcard.fits_ofText_iff]
  rw [accepts, h.alternatives_eq, bne_iff_ne, ne_eq, ← hany, ← h.isNegated_eq_false_iff]
  cases parts.any (covers · name) <;> cases isNegated mask <;> decide

end Written

/-- Without a hidden negation, an alternative is read by the rules of the shell. -/
theorem covers_asRead_iff {t : Text} (h : ∀ contents, HasBrackets contents t → ¬ HidesNegation contents) (name : Text) :
    Shell.Covers Wildcard.asRead t name ↔ Shell.Covers plain t name :=
  covers_congr Wildcard.asRead plain (fun _ => Iff.rfl)
    (fun contents hhas => Wildcard.holds_setOf_iff hhas.isContents (h contents hhas)) name

/-- The mask that is brackets with some contents. -/
def bracketed (contents : Text) : Text := ('[' : CodePoint) :: (contents ++ [(']' : CodePoint)])

theorem written_bracketed (contents : Text) (h : separator ∉ contents) :
    Written (bracketed contents) 0 [bracketed contents] := by
  refine ⟨rfl, ?_, List.cons_ne_nil _ _, ?_⟩
  · rw [Text.join, bracketed, List.head?_cons]
    decide
  · rw [List.forall_mem_singleton, bracketed, List.mem_cons, List.mem_append, List.mem_singleton]
    rintro (hc | hc | hc)
    · exact absurd hc (by decide)
    · exact h hc
    · exact absurd hc (by decide)

theorem caseFold_bracketed (contents : Text) : (bracketed contents).caseFold = bracketed contents.caseFold := by
  rw [bracketed, Text.caseFold_sign_cons (by decide), Text.caseFold_append]
  rfl

theorem covers_bracketed_iff {r : Reading} {contents : Text} (h : IsContents contents) (name : Text) :
    Shell.Covers r (bracketed contents) name ↔ ∃ c, name = [c] ∧ r.set contents c := by
  rw [bracketed, covers_brackets_iff h]
  simp only [covers_nil_iff]
  exact ⟨fun ⟨c, rest, hname, hc, hrest⟩ => ⟨c, hrest ▸ hname, hc⟩, fun ⟨c, hname, hc⟩ => ⟨c, [], hname, hc, rfl⟩⟩

/-- Brackets on their own are read by the rules of the shell just when they hide no negation. -/
theorem bracketed_follows_shell_iff {contents : Text} (hcontents : IsContents contents) (hcomma : separator ∉ contents) :
    (∀ name : Text, accepts (bracketed contents) name = true ↔
        Shell.Covers plain (bracketed contents).caseFold name.caseFold) ↔
      ¬ HidesNegation contents.caseFold := by
  have hfolded := (isContents_caseFold_iff contents).2 hcontents
  have haccepts (name : Text) : accepts (bracketed contents) name = true ↔
      Shell.Covers Wildcard.asRead (bracketed contents).caseFold name.caseFold := by
    simpa using (written_bracketed contents hcomma).accepts_iff name
  simp only [haccepts, caseFold_bracketed, covers_bracketed_iff hfolded]
  constructor
  · intro h hhides
    obtain ⟨c, hc, hne⟩ := Wildcard.exists_holds_setOf_ne hhides
    have hfold : Text.caseFold [c] = [c] := by
      rcases List.mem_pair.1 hc with rfl | rfl <;> decide
    have := h [c]
    rw [hfold] at this
    exact hne (by simpa [Wildcard.asRead, plain] using this)
  · intro hhides name
    exact exists_congr fun c => and_congr_right fun _ => Wildcard.holds_setOf_iff hfolded hhides c

/-- A set of masks that are not negated accepts what their wildcards accept together. -/
theorem accepts_ofList_iff_join {masks : List Text} (h : ∀ m ∈ MaskSet.kept masks, isNegated m = false) (name : Text) :
    (MaskSet.ofList masks).accepts name = true ↔
      MaskSet.kept masks ≠ [] ∧ accepts (Text.join [separator] (MaskSet.kept masks)) name = true := by
  have haccepts {m : Text} (hm : isNegated m = false) :
      accepts m name = (Text.split separator m).any (covers · name) := by
    have hstart : m.head? ≠ some negation := beq_eq_false_iff_ne.1 hm
    rw [accepts, alternatives, dropWhile_negation_eq hstart, hm, Bool.bne_false]
  rw [MaskSet.accepts_ofList_iff]
  cases hkept : MaskSet.kept masks with
  | nil => simp
  | cons m ms =>
    have hfirst : m ≠ [] := (MaskSet.mem_kept_iff.1 (hkept ▸ List.mem_cons_self)).1
    have hjoin : isNegated (Text.join [separator] (m :: ms)) = false := by
      obtain ⟨c, m, rfl⟩ := List.exists_cons_of_ne_nil hfirst
      have := h (c :: m) (hkept ▸ List.mem_cons_self)
      cases ms <;> exact this
    rw [haccepts hjoin, Text.split_join_eq_flatMap (List.cons_ne_nil m ms), List.any_flatMap, List.any_eq_true]
    rw [hkept] at h
    have hmasks : (∃ k ∈ m :: ms, accepts k name = true) ↔
        ∃ k ∈ m :: ms, (Text.split separator k).any (covers · name) = true :=
      exists_congr fun k => and_congr_right fun hk => by rw [haccepts (h k hk)]
    rw [hmasks]
    simp

/-- Masks are read by the rules of the shell, but for reversed ranges before an exclamation mark.

Every mask is written as `Written` says. It accepts a name just when some wildcard covers the name, both folded, or just when
none does if there are exclamation marks, as long as no brackets hide a negation; and brackets on their own are read so only
then. A set of masks that are not negated accepts what the mask of all their wildcards accepts, and nothing if there is none. -/
theorem accepts_follows_shell_rules (mask : Text) (masks : List Text) :
    (∃ marks parts, Written mask marks parts) ∧
    (∀ marks parts, Written mask marks parts →
      (∀ part ∈ parts, ∀ contents, HasBrackets contents part.caseFold → ¬ HidesNegation contents) →
      ∀ name, accepts mask name = true ↔
        ((∃ part ∈ parts, Shell.Covers plain part.caseFold name.caseFold) ↔ marks = 0)) ∧
    (∀ contents, IsContents contents → separator ∉ contents →
      ((∀ name : Text, accepts (bracketed contents) name = true ↔
          Shell.Covers plain (bracketed contents).caseFold name.caseFold) ↔
        ¬ HidesNegation contents.caseFold)) ∧
    ((∀ m ∈ MaskSet.kept masks, isNegated m = false) → ∀ name,
      ((MaskSet.ofList masks).accepts name = true ↔
        MaskSet.kept masks ≠ [] ∧ accepts (Text.join [separator] (MaskSet.kept masks)) name = true)) := by
  refine ⟨(exists_written mask).imp fun marks h => ⟨_, h⟩, ?_, fun contents => bracketed_follows_shell_iff,
    accepts_ofList_iff_join⟩
  intro marks parts hwritten hclear name
  have hparts : (∃ part ∈ parts, Shell.Covers Wildcard.asRead part.caseFold name.caseFold) ↔
      ∃ part ∈ parts, Shell.Covers plain part.caseFold name.caseFold :=
    exists_congr fun part => and_congr_right fun hpart => covers_asRead_iff (hclear part hpart) name.caseFold
  rw [hwritten.accepts_iff, hparts]

/-- Between these brackets stand an empty range and an exclamation mark, so they admit the mark and nothing else. But what is
accepted is any code point. -/
theorem reversed_range_hides_negation :
    Written "[b-a!]" 0 ["[b-a!]"] ∧ accepts "[b-a!]" "x" = true ∧
      ¬ Shell.Covers plain (Text.caseFold "[b-a!]") (Text.caseFold "x") := by
  have hcontents : IsContents "b-a!" := by decide
  have hpattern : Text.caseFold "[b-a!]" = bracketed "b-a!" := by decide
  have hname : Text.caseFold "x" = [('x' : CodePoint)] := by decide
  have hadmits : ¬ Admits "b-a!" 'x' := by decide
  refine ⟨written_bracketed "b-a!" (by decide), by decide, ?_⟩
  rw [hpattern, hname, covers_bracketed_iff hcontents]
  rintro ⟨c, ⟨⟩, hc⟩
  exact hadmits hc

/-- A negated mask over a wildcard with brackets and one with a question mark, and a set of two masks. -/
theorem mask_with_brackets_follows_shell :
    Written "!*.[A-C],x?" 1 ["*.[A-C]", "x?"] ∧
      (accepts "!*.[A-C],x?" "main.b" = true ↔
        ((∃ part ∈ [("*.[A-C]" : Text), "x?"], Shell.Covers plain part.caseFold (Text.caseFold "main.b")) ↔ 1 = 0)) ∧
      ((∀ name : Text, accepts (bracketed "b-aA") name = true ↔
        Shell.Covers plain (bracketed "b-aA").caseFold name.caseFold) ↔ ¬ HidesNegation (Text.caseFold "b-aA")) ∧
      ((MaskSet.ofList [" *.php ", "", "a,b"]).accepts "B" = true ↔
        MaskSet.kept [" *.php ", "", "a,b"] ≠ [] ∧
          accepts (Text.join [separator] (MaskSet.kept [" *.php ", "", "a,b"])) "B" = true) := by
  obtain ⟨-, hmask, hbrackets, hset⟩ := accepts_follows_shell_rules "!*.[A-C],x?" [" *.php ", "", "a,b"]
  have hwritten : Written "!*.[A-C],x?" 1 ["*.[A-C]", "x?"] := ⟨by decide, by decide, by decide, by decide⟩
  refine ⟨hwritten, hmask _ _ hwritten ?_ _, hbrackets _ (by decide) (by decide), hset (by decide) _⟩
  intro part hpart contents hhas
  have hcontents : IsContents ("a-c" : Text) := by decide
  rcases List.mem_pair.1 hpart with rfl | rfl
  · have hfold : Text.caseFold "*.[A-C]" = ('*' : CodePoint) :: ('.' : CodePoint) :: bracketed "a-c" := by decide
    rw [hfold, hasBrackets_cons_iff_of_ne (by decide), hasBrackets_cons_iff_of_ne (by decide), bracketed,
      hasBrackets_brackets_iff hcontents, or_iff_left (not_hasBrackets_nil contents)] at hhas
    rw [hhas]
    decide
  · have hfold : Text.caseFold "x?" = [('x' : CodePoint), ('?' : CodePoint)] := by decide
    rw [hfold, hasBrackets_cons_iff_of_ne (by decide), hasBrackets_cons_iff_of_ne (by decide)] at hhas
    exact absurd hhas (not_hasBrackets_nil contents)

/-! ## Case -/

/-- What a wildcard covers in a way that its signs keep, its mask accepts, and the negated mask does not. -/
theorem accepts_of_keeps {mask : Text} {parts : List Text} (hmask : Written mask 0 parts) {part name : Text}
    (hpart : part ∈ parts) (h : Shell.Keeps false part name) :
    Shell.Covers plain part name ∧ accepts mask name = true ∧ accepts (negation :: mask) name = false := by
  have hcovers : ∃ part ∈ parts, Shell.Covers Wildcard.asRead part.caseFold name.caseFold := ⟨part, hpart, h.coversFolded⟩
  refine ⟨h.covers, ?_, ?_⟩
  · rw [hmask.accepts_iff]
    exact iff_of_true hcovers rfl
  · rw [← Bool.not_eq_true, hmask.negation_cons.accepts_iff]
    exact fun hiff => absurd (hiff.1 hcovers) (Nat.succ_ne_zero 0)

/-- Negated brackets keep a letter, a question mark before a star keeps one that folds to two, and brackets keep what they list
although a range is reversed by folding. -/
theorem kept_match_is_accepted :
    Written "y,[!x]?*.[Z-az]" 0 ["y", "[!x]?*.[Z-az]"] ∧ Shell.Keeps false "[!x]?*.[Z-az]" "Éß.Z" ∧
      accepts "y,[!x]?*.[Z-az]" "Éß.Z" = true ∧ accepts "!y,[!x]?*.[Z-az]" "Éß.Z" = false := by
  have hwritten : Written "y,[!x]?*.[Z-az]" 0 ["y", "[!x]?*.[Z-az]"] := ⟨by decide, by decide, by decide, by decide⟩
  have hfirst : IsContents "!x" := by decide
  have hsecond : IsContents "Z-az" := by decide
  have hlast : Shell.Keeps false "[Z-az]" "Z" :=
    .brackets (d := 'z') hsecond (by decide) ⟨[], [], by decide, .inl rfl, .inl rfl⟩ (by decide) .nil
  have hstar : Shell.Keeps false "?*.[Z-az]" "ß.Z" :=
    .any (.inr (.inl rfl)) (.star [] (.literal (by decide) (by decide) (fun h => absurd h (by decide)) hlast))
  have hkeeps : Shell.Keeps false "[!x]?*.[Z-az]" "Éß.Z" :=
    .brackets (d := 'é') hfirst (by decide) ⟨[], [], by decide +kernel, .inl rfl, .inl rfl⟩ (by decide) hstar
  exact ⟨hwritten, hkeeps, (accepts_of_keeps hwritten (by decide) hkeeps).2⟩

/-- The wildcard that is a mask covers a name which the mask does not accept. -/
def Loses (mask name : Text) : Prop :=
  Written mask 0 [mask] ∧ Shell.Covers plain mask name ∧ accepts mask name = false

theorem loses_bracketed (contents : Text) (c : CodePoint) (hcontents : IsContents contents) (hcomma : separator ∉ contents)
    (hadmits : Admits contents c) (haccepts : accepts (bracketed contents) [c] = false) : Loses (bracketed contents) [c] :=
  ⟨written_bracketed contents hcomma, (covers_bracketed_iff hcontents [c]).2 ⟨c, rfl, hadmits⟩, haccepts⟩

/-- Each of the signs loses what it does not keep: negated brackets an upper case letter whose folding they exclude, a question
mark and brackets a code point that folds to two, ranges what no longer lies between their ends or is not listed when an end
folds to two, and brackets what they list behind a range that is reversed by folding and hides a negation then. -/
theorem signs_lose_case :
    Loses "[!a]" "A" ∧ Loses "?" "ß" ∧ Loses "[ß]" "ß" ∧ Loses "[Z-a]" "Z" ∧ Loses "[a-ß]" "x" ∧ Loses "[Z-a!x]" "x" :=
  ⟨loses_bracketed "!a" 'A' (by decide) (by decide) (by decide) (by decide),
    ⟨⟨rfl, by decide, List.cons_ne_nil _ _, by decide⟩, .any trivial .nil, by decide⟩,
    loses_bracketed "ß" 'ß' (by decide) (by decide) (by decide) (by decide),
    loses_bracketed "Z-a" 'Z' (by decide) (by decide) (by decide) (by decide),
    loses_bracketed "a-ß" 'x' (by decide) (by decide) (by decide) (by decide),
    loses_bracketed "Z-a!x" 'x' (by decide) (by decide) (by decide) (by decide)⟩

end Mask
end SourceTidy
