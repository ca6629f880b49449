import SourceTidy.Text.CaseFold

/-!
# Signs without case

Folding maps a text code point by code point, and some code points to several. The signs that have no case stay what they
are, and no other code point folds to anything that holds one of them (`mem_caseFold_iff`). So a folded text can be cut at
such a sign just where the text itself can (`exists_of_caseFold_eq`).
-/

namespace SourceTidy

namespace CodePoint

/-- An ASCII code point before the upper case letters, or between them and the lower case ones. -/
def isSign (c : CodePoint) : Bool := c.within 0 0x40 || c.within 0x5B 0x60

theorem isSign_iff (c : CodePoint) : c.isSign = true ↔ c.toNat ≤ 0x40 ∨ 0x5B ≤ c.toNat ∧ c.toNat ≤ 0x60 := by
  simp [isSign, within]

theorem caseFold_of_isSign {c : CodePoint} (h : c.isSign = true) : c.caseFold = [c] := by
  rw [isSign_iff] at h
  rw [caseFold, if_pos (by omega), asciiLower, if_neg]
  simp only [within, decide_eq_true_eq]
  omega

theorem le_toNat_ofNat {m n : Nat} (hm : m ≤ 0xFFFD) (h : m ≤ n) : m ≤ (ofNat n).toNat := by
  rw [ofNat]
  split
  · exact h
  · exact hm

theorem caseFold_ne_nil (c : CodePoint) : c.caseFold ≠ [] := by
  have hlong : ∀ p ∈ longFolds, p.2 ≠ [] := by decide +kernel
  rw [caseFold]
  split
  · exact List.cons_ne_nil _ _
  · split
    · rename_i ns hlookup
      obtain ⟨before, after, hfolds, -⟩ := List.lookup_eq_some_iff.1 hlookup
      exact mt List.map_eq_nil_iff.1 (hlong (c.toNat, ns) (by simp [hfolds]))
    · exact List.cons_ne_nil _ _

/-- Nothing beyond ASCII folds to a sign. -/
theorem le_toNat_of_mem_caseFold {c d : CodePoint} (hc : 0x80 ≤ c.toNat) (h : d ∈ c.caseFold) : 0x61 ≤ d.toNat := by
  have hlong : ∀ p ∈ longFolds, ∀ n ∈ p.2, 0x61 ≤ n := by decide +kernel
  have hruns : ∀ r ∈ foldRuns, 0x61 ≤ r.target := by decide +kernel
  rw [caseFold, if_neg (Nat.not_lt.2 hc)] at h
  split at h
  · rename_i ns hlookup
    obtain ⟨before, after, hfolds, -⟩ := List.lookup_eq_some_iff.1 hlookup
    obtain ⟨n, hn, rfl⟩ := List.mem_map.1 h
    exact le_toNat_ofNat (by decide) (hlong (c.toNat, ns) (by simp [hfolds]) n hn)
  · obtain rfl := List.mem_singleton.1 h
    refine le_toNat_ofNat (by decide) ?_
    rw [CaseRun.apply]
    split
    · rename_i r hr
      exact Nat.le_trans (hruns r (List.mem_of_find?_eq_some hr)) (Nat.le_add_left _ _)
    · omega

/-- A sign is in the folding of itself and of nothing else. -/
theorem mem_caseFold_iff {x : CodePoint} (hx : x.isSign = true) (c : CodePoint) : x ∈ c.caseFold ↔ c = x := by
  constructor
  · intro h
    rw [isSign_iff] at hx
    by_cases hc : c.toNat < 0x80
    · rw [caseFold, if_pos hc, List.mem_singleton, asciiLower] at h
      split at h
      · rename_i hupper
        simp only [within, decide_eq_true_eq] at hupper
        rw [h, ofNat, dif_pos (by omega)] at hx
        simp only at hx
        omega
      · exact h.symm
    · have := le_toNat_of_mem_caseFold (Nat.not_lt.1 hc) h
      omega
  · rintro rfl
    rw [caseFold_of_isSign hx]
    exact List.mem_singleton_self c

end CodePoint

namespace Text

@[simp] theorem caseFold_nil : caseFold [] = [] := rfl

@[simp] theorem caseFold_append (s t : Text) : (s ++ t).caseFold = s.caseFold ++ t.caseFold := List.flatMap_append

theorem caseFold_cons (c : CodePoint) (t : Text) : caseFold (c :: t) = c.caseFold ++ t.caseFold := rfl

theorem caseFold_sign_cons {x : CodePoint} (hx : x.isSign = true) (t : Text) : caseFold (x :: t) = x :: t.caseFold := by
  rw [caseFold_cons, CodePoint.caseFold_of_isSign hx]
  rfl

theorem caseFold_eq_nil_iff {t : Text} : t.caseFold = [] ↔ t = [] := by
  cases t with
  | nil => simp
  | cons c t => simp [caseFold_cons, c.caseFold_ne_nil]

variable {x : CodePoint} (hx : x.isSign = true)
include hx

theorem mem_caseFold_iff (t : Text) : x ∈ t.caseFold ↔ x ∈ t := by
  rw [caseFold, List.mem_flatMap]
  simp only [CodePoint.mem_caseFold_iff hx]
  exact ⟨fun ⟨c, hc, hcx⟩ => hcx ▸ hc, fun h => ⟨x, h, rfl⟩⟩

theorem head?_caseFold_eq_iff (t : Text) : t.caseFold.head? = some x ↔ t.head? = some x := by
  cases t with
  | nil => rfl
  | cons c t =>
    obtain ⟨d, ds, hc⟩ := List.exists_cons_of_ne_nil c.caseFold_ne_nil
    rw [caseFold_cons, hc, List.cons_append, List.head?_cons, List.head?_cons, Option.some.injEq, Option.some.injEq]
    constructor
    · rintro rfl
      exact (CodePoint.mem_caseFold_iff hx c).1 (hc ▸ List.mem_cons_self)
    · rintro rfl
      rw [CodePoint.caseFold_of_isSign hx] at hc
      exact (List.cons.inj hc).1.symm

/-- A cut of a folded text at a sign is the folding of a cut of the text. -/
theorem exists_of_caseFold_eq {t a b : Text} (h : t.caseFold = a ++ x :: b) :
    ∃ s u : Text, t = s ++ x :: u ∧ s.caseFold = a ∧ u.caseFold = b := by
  induction t generalizing a with
  | nil => simp at h
  | cons c t ih =>
    by_cases hc : c = x
    · subst hc
      rw [caseFold_sign_cons hx] at h
      rcases List.cons_eq_append_iff.1 h with ⟨rfl, hb⟩ | ⟨a, rfl, ha⟩
      · exact ⟨[], t, rfl, rfl, (List.cons.inj hb).2.symm⟩
      · obtain ⟨s, u, rfl, rfl, rfl⟩ := ih ha
        exact ⟨c :: s, u, rfl, caseFold_sign_cons hx s, rfl⟩
    · rw [caseFold_cons] at h
      rcases List.append_eq_append_iff.1 h with ⟨a', rfl, ha⟩ | ⟨b', hb, ha⟩
      · obtain ⟨s, u, rfl, rfl, rfl⟩ := ih ha
        exact ⟨c :: s, u, rfl, rfl, rfl⟩
      · cases b' with
        | nil =>
          obtain ⟨s, u, rfl, hs, rfl⟩ := ih (a := []) ha.symm
          refine ⟨c :: s, u, rfl, ?_, rfl⟩
          rw [caseFold_cons, hs, hb, List.append_nil, List.append_nil]
        | cons d b' =>
          obtain ⟨rfl, -⟩ := List.cons.inj ha
          exact absurd ((CodePoint.mem_caseFold_iff hx c).1 (by simp [hb])) hc

end Text
end SourceTidy
