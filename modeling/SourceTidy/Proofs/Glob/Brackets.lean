import Mathlib.Data.List.Basic
import SourceTidy.Glob.Wildcard

/-!
# What brackets hold

The contents of brackets are read from left to right: a hyphen between two code points makes a range, and everything else
stands for itself (`members`). They admit what one of these members holds or, behind an exclamation mark, what none of them
holds (`Admits`).

A wildcard gets its set another way. It cuts the contents at the hyphens that make ranges (`ofChunks_closeLast`) and takes
out the reversed ranges, which hold nothing (`exists_sifted`). The set is the same (`holds_setOf_iff`) unless the reversed
ranges stand before an exclamation mark: that mark is then the first code point that is left, and it negates what follows it
(`HidesNegation`).
-/

namespace SourceTidy

namespace Brackets

/-- What is listed between brackets. -/
inductive Member where
  /-- A code point on its own. -/
  | one (c : CodePoint)
  /-- All code points between two, ends included. -/
  | range (first last : CodePoint)
  deriving DecidableEq, Repr

namespace Member

/-- A code point that a member stands for. -/
def Holds : Member → CodePoint → Prop
  | one a, c => c = a
  | range a b, c => a.toNat ≤ c.toNat ∧ c.toNat ≤ b.toNat

/-- The code point that a member starts with. -/
def first : Member → CodePoint
  | one a => a
  | range a _ => a

/-- Whether the ends of a range are in the wrong order. -/
def isReversed : Member → Bool
  | one _ => false
  | range a b => decide (b.toNat < a.toNat)

/-- A reversed range is empty. -/
theorem not_holds_of_isReversed {m : Member} (h : m.isReversed = true) (c : CodePoint) : ¬ m.Holds c := by
  cases m with
  | one a => cases h
  | range a b =>
    have hlt : b.toNat < a.toNat := of_decide_eq_true h
    rintro ⟨ha, hb⟩
    omega

end Member

/-- The members of what is listed, from left to right. -/
def members : Text → List Member
  | [] => []
  | [a] => [.one a]
  | [a, b] => [.one a, .one b]
  | a :: h :: b :: rest =>
    if h = ('-' : CodePoint) then .range a b :: members rest else .one a :: members (h :: b :: rest)

/-- Whether brackets with these contents are negated. -/
def isNegated (contents : Text) : Bool := contents.head? == some ('!' : CodePoint)

/-- What is listed in brackets with these contents. -/
def listed (contents : Text) : Text := if isNegated contents then contents.tail else contents

/-- Whether a text can be the contents of brackets. Something is listed, and a closing bracket can only be listed first. -/
def IsContents (contents : Text) : Prop := listed contents ≠ [] ∧ (']' : CodePoint) ∉ (listed contents).tail

/-- Brackets with these contents cover a code point. -/
def Admits (contents : Text) (c : CodePoint) : Prop :=
  (∃ m ∈ members (listed contents), m.Holds c) ↔ isNegated contents = false

/-- The first member that is no reversed range starts with an exclamation mark, but the contents do not. -/
def HidesNegation (contents : Text) : Prop :=
  isNegated contents = false ∧ ∃ m rest, (members contents).filter (fun m => !m.isReversed) = m :: rest ∧
    m.first = ('!' : CodePoint)

instance (m : Member) (c : CodePoint) : Decidable (m.Holds c) :=
  match m with
  | .one a => inferInstanceAs (Decidable (c = a))
  | .range a b => inferInstanceAs (Decidable (a.toNat ≤ c.toNat ∧ c.toNat ≤ b.toNat))

instance (contents : Text) : Decidable (IsContents contents) :=
  inferInstanceAs (Decidable (listed contents ≠ [] ∧ (']' : CodePoint) ∉ (listed contents).tail))

instance (contents : Text) (c : CodePoint) : Decidable (Admits contents c) :=
  inferInstanceAs (Decidable ((∃ m ∈ members (listed contents), m.Holds c) ↔ isNegated contents = false))

theorem hidesNegation_iff (contents : Text) :
    HidesNegation contents ↔ isNegated contents = false ∧
      ((members contents).filter fun m => !m.isReversed).head?.map Member.first = some ('!' : CodePoint) := by
  cases h : (members contents).filter fun m => !m.isReversed <;> simp [HidesNegation, h]

instance (contents : Text) : Decidable (HidesNegation contents) := decidable_of_iff' _ (hidesNegation_iff contents)

theorem exists_mem_ones_iff (t : Text) (c : CodePoint) : (∃ m ∈ t.map Member.one, m.Holds c) ↔ c ∈ t := by
  simp [Member.Holds]

theorem exists_mem_append_iff (ms ns : List Member) (c : CodePoint) :
    (∃ m ∈ ms ++ ns, m.Holds c) ↔ (∃ m ∈ ms, m.Holds c) ∨ ∃ m ∈ ns, m.Holds c := by
  simp only [List.mem_append, or_and_right, exists_or]

theorem members_range (a b : CodePoint) (rest : Text) :
    members (a :: ('-' : CodePoint) :: b :: rest) = .range a b :: members rest := by
  rw [members, if_pos rfl]

theorem members_one {t : Text} (h : ∀ b rest, t ≠ ('-' : CodePoint) :: b :: rest) (a : CodePoint) :
    members (a :: t) = .one a :: members t := by
  match t with
  | [] => rfl
  | [b] => rfl
  | c :: b :: rest => rw [members, if_neg fun hc => h b rest (congrArg (· :: b :: rest) hc)]

/-! ## Chunks

Chunks are what the contents are cut into. The end of one and the start of the next make a range. -/

/-- The range between two chunks. -/
def joint (p q : Text) : List Member :=
  match p.getLast?, q.head? with
  | some a, some b => [.range a b]
  | _, _ => []

/-- The members of a chunk and those that follow it. -/
def ofChunks : Text → List Text → List Member
  | p, [] => p.map .one
  | p, q :: qs => p.dropLast.map .one ++ (joint p q ++ ofChunks q.tail qs)

theorem ofChunks_append {r : Text} {qs : List Text} (h : qs ≠ [] → r ≠ []) (s : Text) :
    ofChunks (s ++ r) qs = s.map .one ++ ofChunks r qs := by
  cases qs with
  | nil => exact List.map_append
  | cons q qs =>
    have hr := h (List.cons_ne_nil q qs)
    rw [ofChunks, ofChunks, joint, joint, List.dropLast_append_of_ne_nil hr, List.getLast?_append_of_ne_nil s hr,
      List.map_append, List.append_assoc]

theorem ofChunks_cons {r : Text} {qs : List Text} (h : qs ≠ [] → r ≠ []) (a : CodePoint) :
    ofChunks (a :: r) qs = .one a :: ofChunks r qs :=
  ofChunks_append h [a]

theorem ofChunks_concat_cons (s : Text) (a b : CodePoint) (q : Text) (qs : List Text) :
    ofChunks (s ++ [a]) ((b :: q) :: qs) = s.map .one ++ .range a b :: ofChunks q qs := by
  rw [ofChunks, joint, List.dropLast_concat, List.getLast?_concat]
  rfl

theorem ofChunks_singleton_cons (a b : CodePoint) (q : Text) (qs : List Text) :
    ofChunks [a] ((b :: q) :: qs) = .range a b :: ofChunks q qs := rfl

/-- Chunks that may follow a first one. In each but the last, the end of one range is not the start of the next. -/
def Links : List Text → Prop
  | [] => True
  | q :: qs => q ≠ [] ∧ (qs ≠ [] → 2 ≤ q.length) ∧ Links qs

/-- No range between two chunks is reversed. -/
def Upward : Text → List Text → Prop
  | _, [] => True
  | p, q :: qs => (∃ a b, p.getLast? = some a ∧ q.head? = some b ∧ a.toNat ≤ b.toNat) ∧ Upward q qs

theorem Upward.of_append {s r : Text} {qs : List Text} (hr : qs ≠ [] → r ≠ []) (h : Upward (s ++ r) qs) : Upward r qs := by
  cases qs with
  | nil => trivial
  | cons q qs => rwa [Upward, List.getLast?_append_of_ne_nil s (hr (List.cons_ne_nil q qs))] at h

theorem Upward.append {r : Text} {qs : List Text} (hr : qs ≠ [] → r ≠ []) (h : Upward r qs) (s : Text) :
    Upward (s ++ r) qs := by
  cases qs with
  | nil => trivial
  | cons q qs => rwa [Upward, List.getLast?_append_of_ne_nil s (hr (List.cons_ne_nil q qs))]

theorem ne_nil_of_two_le_length {a : CodePoint} {q : Text} (h : 2 ≤ (a :: q).length) : q ≠ [] := by
  rintro rfl
  simp at h

/-- `Sifted p qs r rs`: the chunks `r` and `rs` are what the chunks `p` and `qs` are without the reversed ranges. -/
structure Sifted (p : Text) (qs : List Text) (r : Text) (rs : List Text) : Prop where
  members : ofChunks r rs = (ofChunks p qs).filter fun m => !m.isReversed
  upward : Upward r rs
  links : Links rs
  fewer : rs.length ≤ qs.length
  length : rs ≠ [] → p.length ≤ r.length
  head : qs = [] ∨ 2 ≤ p.length → r.head? = p.head?

end Brackets

namespace Wildcard

open Brackets

/-! ## Cutting -/

theorem pieces_hyphen (rest : Text) : pieces 0 (('-' : CodePoint) :: rest) = [] :: pieces 2 rest := rfl

theorem pieces_cons (keep : Nat) {c : CodePoint} (h : keep = 0 → c ≠ '-') {rest p : Text} {ps : List Text}
    (hp : pieces (keep - 1) rest = p :: ps) : pieces keep (c :: rest) = (c :: p) :: ps := by
  have hno : ¬ (decide (keep = 0) && c == '-') = true := by
    rw [Bool.and_eq_true, decide_eq_true_eq, beq_iff_eq]
    exact fun hkeep => h hkeep.1 hkeep.2
  rw [pieces, if_neg hno, hp]

theorem pieces_ne_nil (keep : Nat) (t : Text) : pieces keep t ≠ [] := by
  cases t with
  | nil => exact List.cons_ne_nil _ _
  | cons c rest =>
    rw [pieces]
    split
    · exact List.cons_ne_nil _ _
    · split <;> exact List.cons_ne_nil _ _

theorem closeLast_cons {q : Text} (hq : q ≠ []) (p : Text) (qs : List Text) :
    closeLast (p :: q :: qs) = p :: closeLast (q :: qs) := by
  cases q with
  | nil => exact absurd rfl hq
  | cons b q => rfl

/-- The chunks of a text behind a code point that belongs to the first chunk have the members of both. -/
theorem ofChunks_closeLast (s : Text) (a : CodePoint) {t p : Text} {ps : List Text} (hp : pieces 0 t = p :: ps) :
    ∃ q qs, closeLast ((s ++ a :: p) :: ps) = (s ++ a :: q) :: qs ∧ ofChunks (a :: q) qs = members (a :: t) ∧ Links qs := by
  -- A hyphen that makes a range takes the code point behind it with it, so the text gets shorter by two at once.
  induction hn : t.length using Nat.strongRecOn generalizing s a t p ps with
  | _ n ih =>
    match t with
    | [] =>
      cases hp
      exact ⟨[], [], rfl, rfl, trivial⟩
    | c :: rest =>
      by_cases hc : c = '-'
      · subst hc
        rw [pieces_hyphen] at hp
        cases hp
        match rest with
        | [] => exact ⟨[('-' : CodePoint)], [], by simp [pieces, closeLast, Text.ofString], rfl, trivial⟩
        | [b] => exact ⟨[], [[b]], rfl, rfl, by simp [Links]⟩
        | b :: x :: rest =>
          obtain ⟨r, rs, hr⟩ := List.exists_cons_of_ne_nil (pieces_ne_nil 0 rest)
          have hpieces : pieces 2 (b :: x :: rest) = (b :: x :: r) :: rs :=
            pieces_cons 2 (fun h => nomatch h) (pieces_cons 1 (fun h => nomatch h) hr)
          simp only [List.length_cons] at hn
          obtain ⟨q, qs, hclose, hmembers, hlinks⟩ := ih rest.length (by omega) [b] x hr rfl
          refine ⟨[], (b :: x :: q) :: qs, ?_, ?_, by simp [Links, hlinks]⟩
          · rw [hpieces, closeLast_cons (List.cons_ne_nil b _)]
            exact congrArg _ hclose
          · rw [members_range, ← hmembers]
            exact ofChunks_singleton_cons a b (x :: q) qs
      · obtain ⟨r, rs, hr⟩ := List.exists_cons_of_ne_nil (pieces_ne_nil 0 rest)
        rw [pieces_cons 0 (fun _ => hc) hr] at hp
        cases hp
        simp only [List.length_cons] at hn
        obtain ⟨q, qs, hclose, hmembers, hlinks⟩ := ih rest.length (by omega) (s ++ [a]) c hr rfl
        refine ⟨c :: q, qs, ?_, ?_, hlinks⟩
        · simpa using hclose
        · have hone : members (a :: c :: rest) = .one a :: members (c :: rest) :=
            members_one (fun b more h => hc (List.cons.inj h).1) a
          rw [ofChunks_cons (fun _ => List.cons_ne_nil c q), hmembers, hone]

/-! ## Taking out the reversed ranges -/

theorem filter_ones (p : Text) : (p.map Member.one).filter (fun m => !m.isReversed) = p.map .one := by
  rw [List.filter_eq_self]
  intro m hm
  obtain ⟨a, -, rfl⟩ := List.mem_map.1 hm
  rfl

theorem dropReversed_concat_cons (s : Text) (a b : CodePoint) (q : Text) (qs : List Text) :
    dropReversed (s ++ [a]) ((b :: q) :: qs) =
      if b.toNat < a.toNat then (s ++ q) :: qs else (s ++ [a]) :: (b :: q) :: qs := by
  rw [dropReversed, List.getLast?_concat, List.dropLast_concat]
  rfl

/-- The reversed ranges are taken out from the end to the start, and the chunks stay fit for it. -/
theorem exists_sifted {p : Text} (hp : p ≠ []) {qs : List Text} (hlinks : Links qs) :
    ∃ r rs, dropReversed p (qs.foldr dropReversed []) = r :: rs ∧ Sifted p qs r rs := by
  induction qs generalizing p with
  | nil => exact ⟨p, [], rfl, (filter_ones p).symm, trivial, trivial, Nat.le_refl _, fun h => absurd rfl h, fun _ => rfl⟩
  | cons q qs ih =>
    obtain ⟨hq, hlong, hlinks⟩ := hlinks
    obtain ⟨r, rs, hfold, h⟩ := ih hq hlinks
    obtain ⟨s, a, rfl⟩ := List.eq_nil_or_concat p |>.resolve_left hp
    obtain ⟨b, q, rfl⟩ := List.exists_cons_of_ne_nil hq
    have hhead : r.head? = some b := h.head ((em (qs = [])).imp_right hlong)
    obtain ⟨r, rfl⟩ := List.head?_eq_some_iff.1 hhead
    have hqs : qs ≠ [] → q ≠ [] := fun hqs => ne_nil_of_two_le_length (hlong hqs)
    have hmore : rs ≠ [] → qs ≠ [] := by
      rintro hrs rfl
      exact hrs (List.length_eq_zero_iff.1 (Nat.le_zero.1 h.fewer))
    have hrs : rs ≠ [] → 2 ≤ (b :: r).length := fun hrs => Nat.le_trans (hlong (hmore hrs)) (h.length hrs)
    have hr : rs ≠ [] → r ≠ [] := fun hne => ne_nil_of_two_le_length (hrs hne)
    have hmembers : ofChunks r rs = (ofChunks q qs).filter fun m => !m.isReversed := by
      have := h.members
      rw [ofChunks_cons hr, ofChunks_cons hqs, List.filter_cons_of_pos rfl] at this
      exact (List.cons.inj this).2
    rw [List.foldr_cons, hfold, List.concat_eq_append, dropReversed_concat_cons]
    by_cases hba : b.toNat < a.toNat
    · rw [if_pos hba]
      refine ⟨s ++ r, rs, rfl, ?_, .append hr (.of_append (s := [b]) hr h.upward) s, h.links, ?_, ?_, ?_⟩
      · rw [ofChunks_append hr, ofChunks_concat_cons, List.filter_append, filter_ones,
          List.filter_cons_of_neg (by simp [Member.isReversed, hba]), hmembers]
      · exact Nat.le_trans h.fewer (Nat.le_succ _)
      · intro hne
        have := hrs hne
        simp only [List.length_cons, List.length_append, List.length_nil] at this ⊢
        omega
      · rintro (hnil | hlength)
        · cases hnil
        · cases s with
          | nil => simp at hlength
          | cons c s => rfl
    · rw [if_neg hba]
      refine ⟨s ++ [a], (b :: r) :: rs, rfl, ?_, ⟨⟨a, b, List.getLast?_concat, rfl, Nat.le_of_not_lt hba⟩, h.upward⟩,
        ⟨List.cons_ne_nil b r, hrs, h.links⟩, Nat.succ_le_succ h.fewer, fun _ => Nat.le_refl _, fun _ => rfl⟩
      rw [ofChunks_concat_cons, ofChunks_concat_cons, List.filter_append, filter_ones,
        List.filter_cons_of_pos (by simp [Member.isReversed, hba]), hmembers]

/-! ## The set -/

theorem any_single_iff (t : Text) (c : CodePoint) :
    ((t.map fun d => (d.toNat, d.toNat)).any fun r => c.within r.1 r.2) = true ↔ c ∈ t := by
  have hsingle (d : CodePoint) : c.within d.toNat d.toNat = true ↔ d = c := by
    rw [CodePoint.within, decide_eq_true_eq]
    exact ⟨fun h => CodePoint.ext (Nat.le_antisymm h.1 h.2), fun h => h ▸ ⟨Nat.le_refl _, Nat.le_refl _⟩⟩
  simp [hsingle]

/-- The ranges of chunks without reversed ranges hold what their members hold. -/
theorem any_rangesOf_iff {p : Text} {qs : List Text} (hup : Upward p qs) (hlinks : Links qs) (c : CodePoint) :
    ((rangesOf (p :: qs)).any fun r => c.within r.1 r.2) = true ↔ ∃ m ∈ ofChunks p qs, m.Holds c := by
  induction qs generalizing p with
  | nil => rw [rangesOf, any_single_iff, ofChunks, exists_mem_ones_iff]
  | cons q qs ih =>
    obtain ⟨hq, hlong, hlinks⟩ := hlinks
    obtain ⟨⟨a, b, hlast, hhead, hab⟩, hup⟩ := hup
    obtain ⟨s, rfl⟩ := List.getLast?_eq_some_iff.1 hlast
    obtain ⟨q, rfl⟩ := List.head?_eq_some_iff.1 hhead
    have hrest : ((rangesOf ((b :: q) :: qs)).any fun r => c.within r.1 r.2) = true ↔
        c = b ∨ ∃ m ∈ ofChunks q qs, m.Holds c := by
      have h := ih hup hlinks
      rwa [ofChunks_cons (fun hqs => ne_nil_of_two_le_length (hlong hqs)), List.exists_mem_cons_iff] at h
    have hranges : rangesOf ((s ++ [a]) :: (b :: q) :: qs) =
        (s ++ [a]).map (fun d => (d.toNat, d.toNat)) ++ (a.toNat, b.toNat) :: rangesOf ((b :: q) :: qs) := by
      rw [rangesOf, List.getLast?_concat]
      rfl
    rw [hranges, List.any_append, List.any_cons, Bool.or_eq_true, Bool.or_eq_true, any_single_iff, hrest,
      ofChunks_concat_cons, exists_mem_append_iff, exists_mem_ones_iff, List.exists_mem_cons_iff, CodePoint.within,
      decide_eq_true_eq, List.mem_append, List.mem_singleton]
    -- the ends of the range are listed twice
    constructor
    · rintro ((hc | rfl) | hc | rfl | hc)
      · exact .inl hc
      · exact .inr (.inl ⟨Nat.le_refl _, hab⟩)
      · exact .inr (.inl hc)
      · exact .inr (.inl ⟨hab, Nat.le_refl _⟩)
      · exact .inr (.inr hc)
    · rintro (hc | hc | hc)
      · exact .inl (.inl hc)
      · exact .inr (.inl hc)
      · exact .inr (.inr (.inr hc))

theorem exists_mem_filter_iff (ms : List Member) (c : CodePoint) :
    (∃ m ∈ ms.filter (fun m => !m.isReversed), m.Holds c) ↔ ∃ m ∈ ms, m.Holds c := by
  constructor
  · rintro ⟨m, hm, hc⟩
    exact ⟨m, (List.mem_filter.1 hm).1, hc⟩
  · rintro ⟨m, hm, hc⟩
    refine ⟨m, List.mem_filter.2 ⟨hm, ?_⟩, hc⟩
    rw [Bool.not_eq_true', ← Bool.not_eq_true]
    exact fun hreversed => Member.not_holds_of_isReversed hreversed c hc

/-- The set of chunks: an exclamation mark that they start with negates the rest. -/
def setOfChunks (p : Text) (qs : List Text) : Atom :=
  if p.head? = some ('!' : CodePoint) then .oneOf true (rangesOf (p.tail :: qs)) else .oneOf false (rangesOf (p :: qs))

theorem setOf_eq {contents p : Text} {qs : List Text} (keep : Nat)
    (hkeep : keep = if contents.head? == some ('!' : CodePoint) then 2 else 1)
    (h : (closeLast (pieces keep contents)).foldr dropReversed [] = p :: qs) : setOf contents = setOfChunks p qs := by
  rw [setOf, ← hkeep]
  simp only [h]
  cases p with
  | nil => rfl
  | cons c p => simp only [setOfChunks, List.head?_cons, Option.some.injEq, List.tail_cons]

/-- The set of contents that are negated. -/
theorem exists_setOf_negated (x : CodePoint) (t : Text) :
    ∃ p qs, setOf (('!' : CodePoint) :: x :: t) = setOfChunks (('!' : CodePoint) :: p) qs ∧ Upward p qs ∧ Links qs ∧
      ofChunks p qs = (members (x :: t)).filter fun m => !m.isReversed := by
  obtain ⟨p, ps, hp⟩ := List.exists_cons_of_ne_nil (pieces_ne_nil 0 t)
  obtain ⟨q, qs, hclose, hmembers, hlinks⟩ := ofChunks_closeLast [('!' : CodePoint)] x hp
  have hpieces : pieces 2 (('!' : CodePoint) :: x :: t) = (('!' : CodePoint) :: x :: p) :: ps :=
    pieces_cons 2 (fun h => nomatch h) (pieces_cons 1 (fun h => nomatch h) hp)
  obtain ⟨r, rs, hsift, h⟩ := exists_sifted (List.cons_ne_nil ('!' : CodePoint) (x :: q)) hlinks
  obtain ⟨r, rfl⟩ := List.head?_eq_some_iff.1 (h.head (.inr (by simp)))
  have hr : rs ≠ [] → r ≠ [] := fun hrs => ne_nil_of_two_le_length (Nat.le_trans (by simp) (h.length hrs))
  have hrest := h.members
  rw [ofChunks_cons hr, ofChunks_cons (fun _ => List.cons_ne_nil x q), hmembers, List.filter_cons_of_pos rfl] at hrest
  refine ⟨r, rs, setOf_eq 2 rfl ?_, .of_append (s := [_]) hr h.upward, h.links, (List.cons.inj hrest).2⟩
  rw [hpieces]
  exact (congrArg _ hclose).trans hsift

/-- The set of contents that are not negated. -/
theorem exists_setOf_of_not_negated {x : CodePoint} (hx : x ≠ '!') (t : Text) :
    ∃ p qs, setOf (x :: t) = setOfChunks p qs ∧ Upward p qs ∧ Links qs ∧ (qs ≠ [] → p ≠ []) ∧
      ofChunks p qs = (members (x :: t)).filter fun m => !m.isReversed := by
  obtain ⟨p, ps, hp⟩ := List.exists_cons_of_ne_nil (pieces_ne_nil 0 t)
  obtain ⟨q, qs, hclose, hmembers, hlinks⟩ := ofChunks_closeLast [] x hp
  have hpieces : pieces 1 (x :: t) = (x :: p) :: ps := pieces_cons 1 (fun h => nomatch h) hp
  have hkeep : 1 = if (x :: t).head? == some ('!' : CodePoint) then 2 else 1 := by
    rw [if_neg]
    simpa using hx
  obtain ⟨r, rs, hsift, h⟩ := exists_sifted (List.cons_ne_nil x q) hlinks
  refine ⟨r, rs, setOf_eq 1 hkeep ?_, h.upward, h.links, ?_, by rw [h.members, hmembers]⟩
  · rw [hpieces]
    exact (congrArg _ hclose).trans hsift
  · rintro hrs rfl
    simpa using h.length hrs

theorem holds_oneOf_iff (negated : Bool) (ranges : List (Nat × Nat)) (c : CodePoint) :
    (Atom.oneOf negated ranges).holds c = true ↔
      ((ranges.any fun r => c.within r.1 r.2) = true ↔ negated = false) := by
  rw [Atom.holds, bne_iff_ne, ne_eq]
  cases negated <;> simp

theorem setOfChunks_negation (p : Text) (qs : List Text) :
    setOfChunks (('!' : CodePoint) :: p) qs = .oneOf true (rangesOf (p :: qs)) := rfl

theorem setOfChunks_of_ne {p : Text} (h : p.head? ≠ some ('!' : CodePoint)) (qs : List Text) :
    setOfChunks p qs = .oneOf false (rangesOf (p :: qs)) := if_neg h

/-- The first member of chunks starts where they do. -/
theorem exists_ofChunks_eq_cons (c : CodePoint) (p : Text) {qs : List Text} (hlinks : Links qs) :
    ∃ m ms, ofChunks (c :: p) qs = m :: ms ∧ m.first = c := by
  match qs with
  | [] => exact ⟨.one c, p.map .one, rfl, rfl⟩
  | q :: qs =>
    match p with
    | [] =>
      obtain ⟨b, q, rfl⟩ := List.exists_cons_of_ne_nil hlinks.1
      exact ⟨.range c b, ofChunks q qs, ofChunks_singleton_cons c b q qs, rfl⟩
    | d :: p => exact ⟨.one c, _, ofChunks_cons (fun _ => List.cons_ne_nil d p) c, rfl⟩

/-- A wildcard gets the set that the contents of brackets admit, unless reversed ranges hide an exclamation mark. -/
theorem holds_setOf_iff {contents : Text} (h : IsContents contents) (hhides : ¬ HidesNegation contents) (c : CodePoint) :
    (setOf contents).holds c = true ↔ Admits contents c := by
  obtain ⟨hlisted, -⟩ := h
  match contents with
  | [] => exact absurd rfl hlisted
  | x :: t =>
    by_cases hx : x = '!'
    · subst hx
      have hnegated : isNegated (('!' : CodePoint) :: t) = true := rfl
      rw [listed, if_pos hnegated, List.tail_cons] at hlisted
      obtain ⟨y, t, rfl⟩ := List.exists_cons_of_ne_nil hlisted
      obtain ⟨p, qs, hset, hup, hlinks, hmembers⟩ := exists_setOf_negated y t
      rw [hset, setOfChunks_negation, holds_oneOf_iff, any_rangesOf_iff hup hlinks, hmembers, exists_mem_filter_iff,
        Admits, hnegated]
      rfl
    · have hnegated : isNegated (x :: t) = false := by simpa [isNegated] using hx
      obtain ⟨p, qs, hset, hup, hlinks, hp, hmembers⟩ := exists_setOf_of_not_negated hx t
      have hhead : p.head? ≠ some ('!' : CodePoint) := by
        intro hhead
        obtain ⟨p, rfl⟩ := List.head?_eq_some_iff.1 hhead
        obtain ⟨m, ms, hfirst, hm⟩ := exists_ofChunks_eq_cons '!' p hlinks
        exact hhides ⟨hnegated, m, ms, hmembers.symm.trans hfirst, hm⟩
      rw [hset, setOfChunks_of_ne hhead, holds_oneOf_iff, any_rangesOf_iff hup hlinks, hmembers, exists_mem_filter_iff,
        Admits, hnegated, listed, hnegated]
      rfl

/-! ## A hidden negation -/

/-- The chunks that are left of contents with a hidden negation start with the mark. -/
theorem exists_setOf_of_hides {contents : Text} (hhides : HidesNegation contents) :
    ∃ p qs, setOf contents = setOfChunks (('!' : CodePoint) :: p) qs ∧ Upward (('!' : CodePoint) :: p) qs ∧ Links qs ∧
      ∀ c, Admits contents c ↔ ∃ m ∈ ofChunks (('!' : CodePoint) :: p) qs, m.Holds c := by
  obtain ⟨hnegated, m, rest, hcontents, hm⟩ := hhides
  match contents with
  | [] => cases hcontents
  | x :: t =>
    have hx : x ≠ '!' := by simpa [isNegated] using hnegated
    obtain ⟨p, qs, hset, hup, hlinks, hp, hmembers⟩ := exists_setOf_of_not_negated hx t
    have hadmits (c : CodePoint) : Admits (x :: t) c ↔ ∃ m ∈ ofChunks p qs, m.Holds c := by
      rw [Admits, hnegated, listed, hnegated, hmembers, exists_mem_filter_iff]
      exact iff_true_right rfl
    rw [hcontents] at hmembers
    match p with
    | [] =>
      obtain rfl : qs = [] := Decidable.byContradiction fun hqs => hp hqs rfl
      cases hmembers
    | c :: p =>
      obtain ⟨m', ms, hfirst, hm'⟩ := exists_ofChunks_eq_cons c p hlinks
      obtain ⟨rfl, -⟩ := List.cons.inj (hmembers.symm.trans hfirst)
      obtain rfl : '!' = c := hm.symm.trans hm'
      exact ⟨p, qs, hset, hup, hlinks, hadmits⟩

theorem holds_setOfChunks_negation_iff (p : Text) (qs : List Text) (c : CodePoint) :
    (setOfChunks (('!' : CodePoint) :: p) qs).holds c = true ↔
      ¬ ((rangesOf (p :: qs)).any fun r => c.within r.1 r.2) = true := by
  rw [setOfChunks_negation, holds_oneOf_iff, ← Bool.not_eq_true]
  simp

/-- Where the mark is a member on its own, what follows it is negated. -/
theorem not_holds_iff_of_lone_mark {p : Text} {qs : List Text} (hup : Upward (('!' : CodePoint) :: p) qs)
    (hlinks : Links qs) (hlone : qs ≠ [] → p ≠ []) :
    ¬ ((setOfChunks (('!' : CodePoint) :: p) qs).holds 'a' = true ↔
      ∃ m ∈ ofChunks (('!' : CodePoint) :: p) qs, m.Holds 'a') := by
  have hne : ¬ (Member.one '!').Holds 'a' := by decide
  rw [holds_setOfChunks_negation_iff, ofChunks_cons hlone, List.exists_mem_cons_iff, or_iff_right hne,
    any_rangesOf_iff (.of_append (s := [_]) hlone hup) hlinks]
  exact not_iff_self

/-- Where the mark starts a range, its hyphen stands for itself when the mark is gone, and so does the end of the range. -/
theorem exists_not_holds_iff_of_range {b : CodePoint} {q : Text} {qs : List Text} (hup : Upward (b :: q) qs)
    (hlinks : Links ((b :: q) :: qs)) :
    ∃ c ∈ [('a' : CodePoint), ('-' : CodePoint)],
      ¬ ((setOfChunks [('!' : CodePoint)] ((b :: q) :: qs)).holds c = true ↔
        ∃ m ∈ ofChunks [('!' : CodePoint)] ((b :: q) :: qs), m.Holds c) := by
  obtain ⟨-, hlong, hlinks⟩ := hlinks
  have hranges (c : CodePoint) : ((rangesOf ([] :: (b :: q) :: qs)).any fun r => c.within r.1 r.2) = true ↔
      c.within 0x2D 0x2D = true ∨ c = b ∨ ∃ m ∈ ofChunks q qs, m.Holds c := by
    have hany := any_rangesOf_iff hup hlinks c
    rw [ofChunks_cons (fun hqs => ne_nil_of_two_le_length (hlong hqs)), List.exists_mem_cons_iff] at hany
    rw [rangesOf, List.map_nil, List.nil_append, List.any_cons, Bool.or_eq_true, hany]
    rfl
  by_cases hb : 0x2D ≤ b.toNat
  · refine ⟨'-', by simp, ?_⟩
    rw [holds_setOfChunks_negation_iff, hranges, ofChunks_singleton_cons, List.exists_mem_cons_iff]
    exact fun h => h.2 (.inl ⟨by decide, hb⟩) (.inl (by decide))
  · have hne : ('a' : CodePoint) ≠ b := by
      rintro rfl
      exact hb (by decide)
    have hout : ¬ (Member.range '!' b).Holds 'a' := fun h => hb (Nat.le_trans (by decide) h.2)
    refine ⟨'a', by simp, ?_⟩
    rw [holds_setOfChunks_negation_iff, hranges, ofChunks_singleton_cons, List.exists_mem_cons_iff,
      or_iff_right (by decide), or_iff_right hne, or_iff_right hout]
    exact not_iff_self

/-- A wildcard gets another set when reversed ranges hide an exclamation mark. -/
theorem exists_holds_setOf_ne {contents : Text} (hhides : HidesNegation contents) :
    ∃ c ∈ [('a' : CodePoint), ('-' : CodePoint)], ¬ ((setOf contents).holds c = true ↔ Admits contents c) := by
  obtain ⟨p, qs, hset, hup, hlinks, hadmits⟩ := exists_setOf_of_hides hhides
  simp only [hset, hadmits]
  by_cases hlone : qs ≠ [] → p ≠ []
  · exact ⟨'a', by simp, not_holds_iff_of_lone_mark hup hlinks hlone⟩
  · obtain ⟨hqs, rfl⟩ : qs ≠ [] ∧ p = [] := by simpa using hlone
    obtain ⟨q, qs, rfl⟩ := List.exists_cons_of_ne_nil hqs
    obtain ⟨b, q, rfl⟩ := List.exists_cons_of_ne_nil hlinks.1
    exact exists_not_holds_iff_of_range hup.2 hlinks

end Wildcard
end SourceTidy
