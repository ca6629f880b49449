import SourceTidy.Proofs.Glob.Shell
import SourceTidy.Proofs.Text.CaseFold

/-!
# Written wildcards without case

A wildcard is folded as it is written, contents of brackets included. The signs of a wildcard have no case, so its brackets
stand where they stood (`isContents_caseFold_iff`, `isClosed_caseFold_iff`), but they list something else
(`exists_mem_members_caseFold_iff`): a code point may fold to several, which are then listed one by one, and a range goes
from the folding of one end to that of the other.

So a name that a wildcard covers may be lost when both are folded. It is not lost where the signs stand for code points that
they keep (`Shell.Keeps.coversFolded`). A sign that stands for one code point keeps one that folds to several only if a star
takes the rest of them.
-/

namespace SourceTidy

/-- Folding makes one code point of this one. -/
def CodePoint.FoldsToOne (c : CodePoint) : Prop := ∃ d, c.caseFold = [d]

namespace Brackets

/-- A text is empty, or its first member is a range, or a code point on its own. -/
@[elab_as_elim]
theorem members_induction {motive : Text → Prop} (nil : motive [])
    (range : ∀ a b rest, motive rest → motive (a :: ('-' : CodePoint) :: b :: rest))
    (one : ∀ a t, (∀ b rest, t ≠ ('-' : CodePoint) :: b :: rest) → motive t → motive (a :: t)) (t : Text) : motive t := by
  induction hn : t.length using Nat.strongRecOn generalizing t with
  | _ n ih =>
    match t with
    | [] => exact nil
    | a :: t =>
      rw [List.length_cons] at hn
      by_cases hrange : ∃ b rest, t = ('-' : CodePoint) :: b :: rest
      · obtain ⟨b, rest, rfl⟩ := hrange
        rw [List.length_cons, List.length_cons] at hn
        exact range a b rest (ih rest.length (by omega) rest rfl)
      · exact one a t (fun b rest h => hrange ⟨b, rest, h⟩) (ih t.length (by omega) t rfl)

/-- Code points before a text are members on their own if no hyphen stands between them and none goes on behind them. -/
theorem members_append {s t : Text} (hs : ('-' : CodePoint) ∉ s.tail) (ht : ∀ b rest, t ≠ ('-' : CodePoint) :: b :: rest) :
    members (s ++ t) = s.map .one ++ members t := by
  induction s with
  | nil => rfl
  | cons a s ih =>
    have hrest : ∀ b rest, s ++ t ≠ ('-' : CodePoint) :: b :: rest := by
      intro b rest h
      cases s with
      | nil => exact ht b rest h
      | cons c s => exact hs (List.mem_cons.2 (.inl (List.cons.inj h).1.symm))
    rw [List.cons_append, members_one hrest, ih fun h => hs (List.mem_of_mem_tail h)]
    rfl

/-! ## Contents that are folded -/

theorem isNegated_caseFold (contents : Text) : isNegated contents.caseFold = isNegated contents := by
  rw [Bool.eq_iff_iff, isNegated, isNegated, beq_iff_eq, beq_iff_eq]
  exact Text.head?_caseFold_eq_iff (by decide) contents

theorem listed_caseFold (contents : Text) : listed contents.caseFold = (listed contents).caseFold := by
  rw [listed, listed, isNegated_caseFold]
  split
  · rename_i h
    obtain ⟨t, rfl⟩ := List.head?_eq_some_iff.1 (beq_iff_eq.1 h)
    rw [Text.caseFold_sign_cons (by decide), List.tail_cons, List.tail_cons]
  · rfl

/-- Folding puts a sign behind the first code point only where it stands already. -/
theorem mem_tail_caseFold_iff {x : CodePoint} (hx : x.isSign = true) (t : Text) : x ∈ t.caseFold.tail ↔ x ∈ t.tail := by
  cases t with
  | nil => rfl
  | cons c t =>
    have hc : x ∉ c.caseFold.tail := by
      intro h
      obtain rfl := (CodePoint.mem_caseFold_iff hx c).1 (List.mem_of_mem_tail h)
      rw [CodePoint.caseFold_of_isSign hx] at h
      cases h
    rw [Text.caseFold_cons, List.tail_append_of_ne_nil c.caseFold_ne_nil, List.mem_append, or_iff_right hc,
      Text.mem_caseFold_iff hx, List.tail_cons]

theorem isContents_caseFold_iff (contents : Text) : IsContents contents.caseFold ↔ IsContents contents := by
  rw [IsContents, IsContents, listed_caseFold, mem_tail_caseFold_iff (by decide), ne_eq, ne_eq, Text.caseFold_eq_nil_iff]

theorem isClosed_caseFold_iff (t : Text) : IsClosed t.caseFold ↔ IsClosed t := by
  constructor
  · rintro ⟨contents, rest, hcontents, h⟩
    obtain ⟨s, u, rfl, rfl, rfl⟩ := Text.exists_of_caseFold_eq (by decide) h
    exact ⟨s, u, (isContents_caseFold_iff s).1 hcontents, rfl⟩
  · rintro ⟨contents, rest, hcontents, rfl⟩
    refine ⟨contents.caseFold, Text.caseFold rest, (isContents_caseFold_iff contents).2 hcontents, ?_⟩
    rw [Text.caseFold_append, Text.caseFold_sign_cons (by decide)]

/-- What a member holds when it is folded: each code point of a folding, or what lies between two of them. -/
def Member.HoldsFolded : Member → CodePoint → Prop
  | one a, d => d ∈ a.caseFold
  | range a b, d => ∃ a' b', a.caseFold = [a'] ∧ b.caseFold = [b'] ∧ (range a' b').Holds d

/-- Folded contents list what the folded members hold, if no end of a range folds to several code points. -/
theorem exists_mem_members_caseFold_iff {t : Text} (h : ∀ a b, .range a b ∈ members t → a.FoldsToOne ∧ b.FoldsToOne)
    (d : CodePoint) : (∃ m ∈ members t.caseFold, m.Holds d) ↔ ∃ m ∈ members t, m.HoldsFolded d := by
  induction t using members_induction with
  | nil => simp [members]
  | range a b rest ih =>
    rw [members_range] at h ⊢
    obtain ⟨⟨a', ha⟩, b', hb⟩ := h a b List.mem_cons_self
    have hfold : Text.caseFold (a :: ('-' : CodePoint) :: b :: rest) = a' :: ('-' : CodePoint) :: b' :: Text.caseFold rest := by
      rw [Text.caseFold_cons, Text.caseFold_sign_cons (by decide), Text.caseFold_cons, ha, hb]
      rfl
    have hfirst : (Member.range a' b').Holds d ↔ (Member.range a b).HoldsFolded d := by
      simp [Member.HoldsFolded, ha, hb]
    rw [hfold, members_range, List.exists_mem_cons_iff, List.exists_mem_cons_iff, hfirst,
      ih fun a b hm => h a b (List.mem_cons_of_mem _ hm)]
  | one a t ht ih =>
    rw [members_one ht] at h ⊢
    have hsingle : ('-' : CodePoint) ∉ a.caseFold.tail := by
      have := mem_tail_caseFold_iff (x := '-') (by decide) [a]
      simpa [Text.caseFold_cons] using this
    have hrest : ∀ b rest, Text.caseFold t ≠ ('-' : CodePoint) :: b :: rest := by
      intro b rest heq
      obtain ⟨s, u, rfl, hs, hu⟩ := Text.exists_of_caseFold_eq (x := '-') (by decide) (a := []) heq
      obtain rfl := Text.caseFold_eq_nil_iff.1 hs
      cases u with
      | nil => cases hu
      | cons c u => exact ht c u rfl
    rw [Text.caseFold_cons, members_append hsingle hrest, exists_mem_append_iff, exists_mem_ones_iff,
      List.exists_mem_cons_iff, ih fun a b hm => h a b (List.mem_cons_of_mem _ hm), Member.HoldsFolded]

/-- Folded brackets that hide no negation, and whose ranges have ends that fold to one code point each, stand for what the folded
members hold or, when they are negated, for everything else. -/
theorem holds_setOf_caseFold_iff {contents : Text} (hcontents : IsContents contents)
    (hends : ∀ a b, .range a b ∈ members (listed contents) → a.FoldsToOne ∧ b.FoldsToOne)
    (hhides : ¬ HidesNegation contents.caseFold) (d : CodePoint) :
    (Wildcard.setOf contents.caseFold).holds d = true ↔
      ((∃ m ∈ members (listed contents), m.HoldsFolded d) ↔ isNegated contents = false) := by
  rw [Wildcard.holds_setOf_iff ((isContents_caseFold_iff contents).2 hcontents) hhides, Admits, listed_caseFold,
    exists_mem_members_caseFold_iff hends, isNegated_caseFold]

end Brackets

namespace Shell

open Brackets

/-! ## Stars that take what is left -/

/-- There is a star in what is written, with nothing but question marks before it. -/
def starAhead : Text → Bool
  | [] => false
  | c :: t => c == ('*' : CodePoint) || (c == ('?' : CodePoint) && starAhead t)

theorem starAhead_caseFold {t : Text} (h : starAhead t = true) : starAhead t.caseFold = true := by
  induction t with
  | nil => cases h
  | cons c t ih =>
    rw [starAhead, Bool.or_eq_true, Bool.and_eq_true, beq_iff_eq, beq_iff_eq] at h
    rcases h with rfl | ⟨rfl, h⟩
    · rw [Text.caseFold_sign_cons (by decide)]
      rfl
    · rw [Text.caseFold_sign_cons (by decide)]
      exact ih h

/-- A star behind question marks covers more, also before what these stand for. -/
theorem Covers.append_of_starAhead {r : Reading} (hany : ∀ c, r.any c) {t : Text} (ht : starAhead t = true) {name : Text}
    (h : Covers r t name) (u : Text) : Covers r t (u ++ name) := by
  induction h generalizing u with
  | nil => cases ht
  | star s hcovers _ =>
    rw [← List.append_assoc]
    exact .star (u ++ s) hcovers
  | @any c t name hc hcovers ih =>
    have ht : starAhead t = true := ht
    cases u with
    | nil => exact .any hc hcovers
    | cons d u =>
      have hmore := ih ht (u ++ [c])
      rw [List.append_assoc] at hmore
      exact .any (hany d) hmore
  | brackets => cases ht
  | literal hstar hsingle _ _ _ =>
    simp [starAhead, hstar, hsingle] at ht

/-- A code point is in a folding. What stands before it there, and what stands behind it, is nothing, unless there is a star
that takes it. -/
def Yields (before behind : Bool) (c d : CodePoint) : Prop :=
  ∃ pre post, c.caseFold = pre ++ d :: post ∧ (pre = [] ∨ before = true) ∧ (post = [] ∨ behind = true)

/-- `Keeps starred t name`: the name is what the written wildcard `t` stands for, sign by sign, and what each sign stands for
is kept when both are folded. A question mark keeps a code point with one folding and, next to a star, every code point.
Brackets keep a code point if they stand for one of its folding when they are folded, and stars next to them take the others.
Stars and all that stands for itself keep everything.

`starred` tells whether a star stands before `t`, with nothing but question marks between. -/
inductive Keeps : Bool → Text → Text → Prop where
  | nil {starred : Bool} : Keeps starred [] []
  | star {starred : Bool} (s : Text) {t name : Text} : Keeps true t name → Keeps starred (('*' : CodePoint) :: t) (s ++ name)
  | any {starred : Bool} {c : CodePoint} {t name : Text} : starred = true ∨ starAhead t = true ∨ c.FoldsToOne →
      Keeps starred t name → Keeps starred (('?' : CodePoint) :: t) (c :: name)
  | brackets {starred : Bool} {contents : Text} {c d : CodePoint} {t name : Text} : IsContents contents → Admits contents c →
      Yields starred (starAhead t) c d → (Wildcard.setOf contents.caseFold).holds d = true → Keeps false t name →
      Keeps starred (('[' : CodePoint) :: (contents ++ (']' : CodePoint) :: t)) (c :: name)
  | literal {starred : Bool} {c : CodePoint} {t name : Text} : c ≠ '*' → c ≠ '?' → (c = '[' → ¬ IsClosed t) →
      Keeps false t name → Keeps starred (c :: t) (c :: name)

/-- A question mark stands for any code point, and brackets for what their contents admit. -/
def plain : Reading := ⟨fun _ => True, Brackets.Admits⟩

theorem Keeps.covers {starred : Bool} {t name : Text} (h : Keeps starred t name) : Covers plain t name := by
  induction h with
  | nil => exact .nil
  | star s _ ih => exact .star s ih
  | any _ _ ih => exact .any trivial ih
  | brackets hcontents hc _ _ _ ih => exact .brackets hcontents hc ih
  | literal hstar hsingle hopen _ ih => exact .literal hstar hsingle hopen ih

/-- Code points that are no signs of a wildcard stand for themselves. -/
theorem Covers.append {r : Reading} {s : Text}
    (hs : ∀ c ∈ s, c ≠ ('*' : CodePoint) ∧ c ≠ ('?' : CodePoint) ∧ c ≠ ('[' : CodePoint)) {t name : Text}
    (h : Covers r t name) : Covers r (s ++ t) (s ++ name) := by
  induction s with
  | nil => exact h
  | cons c s ih =>
    obtain ⟨⟨hstar, hany, hopen⟩, hs⟩ := List.forall_mem_cons.1 hs
    exact .literal hstar hany (fun hc => absurd hc hopen) (ih hs)

/-- What stands for itself does so when it is folded. -/
theorem Covers.literal_caseFold {r : Reading} {c : CodePoint} (hstar : c ≠ '*') (hany : c ≠ '?') {t name : Text}
    (hopen : c = '[' → ¬ IsClosed t) (h : Covers r t.caseFold name.caseFold) :
    Covers r (Text.caseFold (c :: t)) (Text.caseFold (c :: name)) := by
  by_cases hc : c = '['
  · rw [hc, Text.caseFold_sign_cons (by decide), Text.caseFold_sign_cons (by decide)]
    exact .literal (by decide) (by decide) (fun _ => (isClosed_caseFold_iff t).not.2 (hopen hc)) h
  · rw [Text.caseFold_cons, Text.caseFold_cons]
    refine h.append fun d hd => ⟨?_, ?_, ?_⟩ <;> rintro rfl
    · exact hstar ((CodePoint.mem_caseFold_iff (by decide) c).1 hd)
    · exact hany ((CodePoint.mem_caseFold_iff (by decide) c).1 hd)
    · exact hc ((CodePoint.mem_caseFold_iff (by decide) c).1 hd)

/-- A folded wildcard covers a folded name and, behind a star, anything before the name as well. -/
def CoversFolded (starred : Bool) (t name : Text) : Prop :=
  if starred then ∀ u, Covers Wildcard.asRead (('*' : CodePoint) :: t.caseFold) (u ++ name.caseFold)
  else Covers Wildcard.asRead t.caseFold name.caseFold

theorem CoversFolded.of_covers {t name : Text} (h : Covers Wildcard.asRead t.caseFold name.caseFold) (starred : Bool) :
    CoversFolded starred t name := by
  cases starred with
  | false => exact h
  | true => exact fun u => .star u h

/-- What a wildcard keeps, it covers when both are folded. -/
theorem Keeps.coversFolded {starred : Bool} {t name : Text} (h : Keeps starred t name) : CoversFolded starred t name := by
  -- a star behind a sign takes what is left of its folding
  have hrest {t name post : Text} (hpost : post = [] ∨ starAhead t = true)
      (hcovers : Covers Wildcard.asRead t.caseFold name.caseFold) :
      Covers Wildcard.asRead t.caseFold (post ++ name.caseFold) := by
    rcases hpost with rfl | hstar
    · exact hcovers
    · exact hcovers.append_of_starAhead (fun _ => trivial) (starAhead_caseFold hstar) post
  induction h with
  | nil => exact .of_covers .nil _
  | @star starred s t name _ ih =>
    refine .of_covers ?_ starred
    rw [Text.caseFold_sign_cons (by decide), Text.caseFold_append]
    exact ih _
  | @any starred c t name hc _ ih =>
    obtain ⟨d, post, hd⟩ := List.exists_cons_of_ne_nil c.caseFold_ne_nil
    cases starred with
    | false =>
      rw [CoversFolded, if_neg Bool.false_ne_true, Text.caseFold_sign_cons (by decide), Text.caseFold_cons, hd]
      refine .any trivial (hrest ?_ ih)
      rcases hc with hc | hstar | ⟨d', hd'⟩
      · cases hc
      · exact .inr hstar
      · rw [hd'] at hd
        exact .inl (List.cons.inj hd).2.symm
    | true =>
      intro u
      rw [Text.caseFold_sign_cons (by decide), Text.caseFold_cons, ← List.append_assoc]
      obtain ⟨x, v, hv⟩ := List.exists_cons_of_ne_nil (List.append_ne_nil_of_right_ne_nil u c.caseFold_ne_nil)
      obtain ⟨s, m, hm, hcovers⟩ := covers_star_iff.1 (ih v)
      rw [hv, List.cons_append, hm, ← List.cons_append, ← List.dropLast_append_getLast (List.cons_ne_nil x s),
        List.append_assoc]
      exact .star _ (.any trivial hcovers)
  | @brackets starred contents c d t name hcontents _ hyields hd _ ih =>
    obtain ⟨pre, post, hfold, hpre, hpost⟩ := hyields
    have hfolded : IsContents contents.caseFold := (isContents_caseFold_iff contents).2 hcontents
    have hcovers : Covers Wildcard.asRead (Text.caseFold (('[' : CodePoint) :: (contents ++ (']' : CodePoint) :: t)))
        (d :: (post ++ name.caseFold)) := by
      rw [Text.caseFold_sign_cons (by decide), Text.caseFold_append, Text.caseFold_sign_cons (by decide)]
      exact .brackets hfolded hd (hrest hpost ih)
    cases starred with
    | false =>
      obtain rfl := hpre.resolve_right Bool.false_ne_true
      rw [CoversFolded, if_neg Bool.false_ne_true, Text.caseFold_cons c, hfold]
      exact hcovers
    | true =>
      intro u
      rw [Text.caseFold_cons c, hfold, List.append_assoc, ← List.append_assoc]
      exact .star (u ++ pre) hcovers
  | @literal starred c t name hstar hany hopen _ ih => exact .of_covers (.literal_caseFold hstar hany hopen ih) starred

end Shell
end SourceTidy
