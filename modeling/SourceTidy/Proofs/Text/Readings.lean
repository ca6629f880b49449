import Mathlib.Data.List.Infix
import SourceTidy.Proofs.Text.RoundTrip

/-!
# The texts that are read from bytes

Writing a text and reading it again does not always give the text back: surrogates that stand for bytes give a character when
these bytes happen to be its sequence. A text is the reading of some bytes exactly when that happens nowhere in it
(`isReading_iff`), and so it is enough for a change of a text that it brings no surrogates together (`AddsNoRun`).
-/

namespace SourceTidy
namespace Utf8

/-! ## Which texts are read from bytes -/

/-- A text whose code points all have bytes, and in which nowhere surrogates stand together whose bytes are a well-formed
sequence. -/
structure IsReading (t : Text) : Prop where
  encodable : ∀ c ∈ t, isEncodable c = true
  apart : ∀ part, part <:+: t → (∀ c ∈ part, c.isSurrogate = true) → ¬ IsSequence (part.flatMap bytesOf)

/-- The bytes of a well-formed sequence after its first are continuations. -/
theorem IsSequence.isTail {a : UInt8} {tail : Bytes} (h : IsSequence (a :: tail)) : ∀ b ∈ tail, isTail b = true := by
  cases h with
  | one ha => simp
  | two ha hb => simpa using hb
  | three ha hb hc hlong hsurrogate => simpa using ⟨hb, hc⟩
  | four ha hb hc hd hlong hlarge => simpa using ⟨hb, hc, hd⟩

/-- A well-formed sequence does not start with a continuation. -/
theorem IsSequence.isTail_head {a : UInt8} {tail : Bytes} (h : IsSequence (a :: tail)) : Utf8.isTail a = false := by
  rw [Utf8.isTail, decide_eq_false_iff_not]
  cases h <;> omega

theorem not_isSequence_nil : ¬ IsSequence [] := nofun

/-- A well-formed sequence at the head of some bytes is read as one. -/
theorem IsSequence.head {a : UInt8} {part rest : Bytes} (h : IsSequence part) (hpart : part <+: a :: rest) :
    ∃ c extra, Utf8.head a rest = .scalar c extra := by
  obtain ⟨c, hc, rfl⟩ := h.exists_bytesOf
  obtain ⟨a', tail, hbytes, hhead⟩ := head_bytesOf hc
  rw [hbytes, List.cons_prefix_cons] at hpart
  obtain ⟨rfl, rest, rfl⟩ := hpart
  exact ⟨c, tail.length, hhead rest⟩

/-- The bytes of a surrogate that stands for a byte: that one. -/
theorem bytesOf_of_isSurrogate {c : CodePoint} (hc : isEncodable c = true) (hs : c.isSurrogate = true) :
    ∃ b, bytesOf c = [b] ∧ escape b = c := by
  rw [isEncodable, hs, Bool.not_true, Bool.false_or, CodePoint.within, decide_eq_true_iff] at hc
  refine ⟨UInt8.ofNat (c.toNat - 0xDC00), ?_, ?_⟩
  · rw [bytesOf, hs, if_neg (by omega), if_neg (by omega), if_pos rfl]
  · rw [escape, toNat_byte (by omega), Nat.add_sub_cancel' (by omega), CodePoint.ofNat_toNat]

/-- Continuations at the head of the bytes of a text stand there for surrogates at the head of the text. -/
theorem exists_prefix_of_isTail {tail : Bytes} {t : Text} (htail : ∀ b ∈ tail, isTail b = true)
    (ht : ∀ c ∈ t, isEncodable c = true) (h : tail <+: t.flatMap bytesOf) :
    ∃ part, part <+: t ∧ (∀ c ∈ part, c.isSurrogate = true) ∧ part.flatMap bytesOf = tail := by
  induction tail generalizing t with
  | nil => exact ⟨[], List.nil_prefix, by simp, rfl⟩
  | cons b tail ih =>
    cases t with
    | nil => simp at h
    | cons c t =>
      rw [List.forall_mem_cons] at htail ht
      rw [List.flatMap_cons] at h
      cases hs : c.isSurrogate with
      | false =>
        -- The bytes of `c` start with no continuation.
        obtain ⟨a, tail', hbytes, -⟩ := head_bytesOf hs
        have hfirst : isTail a = false := (isSequence_iff.2 ⟨c, hs, hbytes⟩).isTail_head
        rw [hbytes, List.cons_append, List.cons_prefix_cons] at h
        rw [← h.1, htail.1] at hfirst
        cases hfirst
      | true =>
        obtain ⟨b', hbytes, -⟩ := bytesOf_of_isSurrogate ht.1 hs
        rw [hbytes, List.singleton_append, List.cons_prefix_cons] at h
        obtain ⟨rfl, h⟩ := h
        obtain ⟨part, hpart, hsurrogates, hflat⟩ := ih htail.2 ht.2 h
        refine ⟨c :: part, (List.prefix_cons_inj c).2 hpart, List.forall_mem_cons.2 ⟨hs, hsurrogates⟩, ?_⟩
        rw [List.flatMap_cons, hbytes, hflat, List.singleton_append]

theorem IsReading.tail {c : CodePoint} {t : Text} (h : IsReading (c :: t)) : IsReading t :=
  ⟨fun d hd => h.encodable d (List.mem_cons_of_mem c hd), fun part hpart => h.apart part (List.infix_cons hpart)⟩

/-- Such a text is read again from its bytes. -/
theorem IsReading.decode {t : Text} (h : IsReading t) : Utf8.decode (t.flatMap bytesOf) = t := by
  induction t with
  | nil => rfl
  | cons c t ih =>
    have htail := ih h.tail
    rw [List.flatMap_cons]
    cases hs : c.isSurrogate with
    | false => rw [decode_sequence hs, htail]
    | true =>
      obtain ⟨b, hbytes, hescape⟩ := bytesOf_of_isSurrogate (h.encodable c List.mem_cons_self) hs
      have hnone : ∀ part, IsSequence part → ¬ part <+: b :: t.flatMap bytesOf := by
        rintro (- | ⟨a, tail⟩) hpart hprefix
        · exact not_isSequence_nil hpart
        · -- Then `c` and the surrogates after it would give a well-formed sequence.
          obtain ⟨rfl, hrest⟩ := List.cons_prefix_cons.1 hprefix
          obtain ⟨part, hin, hsurrogates, hflat⟩ := exists_prefix_of_isTail hpart.isTail h.tail.encodable hrest
          refine h.apart (c :: part) ((List.prefix_cons_inj c).2 hin).isInfix
            (List.forall_mem_cons.2 ⟨hs, hsurrogates⟩) ?_
          rwa [List.flatMap_cons, hbytes, hflat, List.singleton_append]
      rw [hbytes, List.singleton_append, decode_escape hnone, htail, hescape]

/-- Surrogates that stand together in a text stand on one side of a code point that is none. -/
theorem infix_append_cons {part s t : Text} {c : CodePoint} (hc : c.isSurrogate = false)
    (hpart : ∀ d ∈ part, d.isSurrogate = true) (h : part <:+: s ++ c :: t) : part <:+: s ∨ part <:+: t := by
  have hno {front : Text} (hfront : c :: front <:+: part) : False := by
    have := hpart c (hfront.subset List.mem_cons_self)
    rw [hc] at this
    cases this
  rcases List.infix_append_iff.1 h with h | h | ⟨front, back, rfl, hfront, hback⟩
  · exact .inl h
  · rcases List.infix_cons_iff.1 h with h | h
    · rcases List.prefix_cons_iff.1 h with rfl | ⟨rest, rfl, -⟩
      · exact .inl (List.nil_infix)
      · exact (hno (List.infix_refl _)).elim
    · exact .inr h
  · rcases List.prefix_cons_iff.1 hback with rfl | ⟨rest, rfl, -⟩
    · rw [List.append_nil]
      exact .inl hfront.isInfix
    · exact (hno (List.suffix_append front _).isInfix).elim

/-- The text of any bytes is such a text. -/
theorem isReading_decode (bytes : Bytes) : IsReading (decode bytes) := by
  refine ⟨fun c hc => isEncodable_of_mem_decode hc, ?_⟩
  unfold Utf8.decode
  generalize 0 = skipped
  intro part hpart hsurrogates
  fun_induction decodeAfter skipped bytes with
  | case1 n =>
    rw [List.infix_nil.1 hpart]
    exact not_isSequence_nil
  | case2 n b rest ih => exact ih hpart
  | case3 a rest c extra hhead ih =>
    rcases infix_append_cons (s := []) (isSurrogate_of_head hhead) hsurrogates hpart with h | h
    · rw [List.infix_nil.1 h]
      exact not_isSequence_nil
    · exact ih h
  | case4 a rest reason extra hhead ih =>
    rcases List.infix_cons_iff.1 hpart with hprefix | hpart
    · -- The sequence would stand at the head of the bytes that were read.
      intro hsequence
      have hbytes := hprefix.flatMap bytesOf
      rw [List.flatMap_cons, bytesOf_escape (le_of_head_malformed hhead), flatMap_bytesOf_decodeAfter,
        List.singleton_append, List.drop_zero] at hbytes
      obtain ⟨c, extra', hscalar⟩ := hsequence.head hbytes
      rw [hhead] at hscalar
      cases hscalar
    · exact ih hpart

/-- The texts that are read from bytes are those in which no surrogates stand together that give a well-formed sequence. -/
theorem isReading_iff {t : Text} : IsReading t ↔ ∃ bytes, decode bytes = t := by
  refine ⟨fun h => ⟨_, h.decode⟩, ?_⟩
  rintro ⟨bytes, rfl⟩
  exact isReading_decode bytes

/-- Such a text can be written, and what is written is read as that text. -/
theorem IsReading.encode {t : Text} (h : IsReading t) : ∃ bytes, Utf8.encode t = .ok bytes ∧ Utf8.decode bytes = t :=
  ⟨t.flatMap bytesOf, encode_eq_ok_iff.2 ⟨h.encodable, rfl⟩, h.decode⟩

/-! ## Changes that bring no surrogates together -/

/-- What surrogates stand together in the second text, stand together in the first. -/
def AddsNoRun (s t : Text) : Prop := ∀ part, (∀ c ∈ part, c.isSurrogate = true) → part <:+: t → part <:+: s

namespace AddsNoRun

variable {s t u : Text}

theorem refl (t : Text) : AddsNoRun t t := fun _ _ h => h

theorem trans (h : AddsNoRun s t) (h' : AddsNoRun t u) : AddsNoRun s u :=
  fun part hpart hu => h part hpart (h' part hpart hu)

/-- A part of a text adds nothing to it. -/
theorem of_part (h : t <:+: s) : AddsNoRun s t := fun _ _ hpart => hpart.trans h

/-- Two texts that add nothing, with a code point between them that is no surrogate. -/
theorem append_cons {c : CodePoint} (hc : c.isSurrogate = false) (h : AddsNoRun s t) (h' : AddsNoRun s u) :
    AddsNoRun s (t ++ c :: u) := by
  intro part hpart hin
  rcases infix_append_cons hc hpart hin with ht | hu
  · exact h part hpart ht
  · exact h' part hpart hu

/-- Code points that are no surrogates, put behind a text. -/
theorem append_of_noSurrogate (h : AddsNoRun s t) (hu : ∀ c ∈ u, c.isSurrogate = false) : AddsNoRun s (t ++ u) := by
  induction u generalizing t with
  | nil => rwa [List.append_nil]
  | cons c u ih =>
    rw [List.forall_mem_cons] at hu
    have hc : AddsNoRun s (t ++ [c]) := h.append_cons hu.1 (.of_part List.nil_infix)
    rw [List.append_cons]
    exact ih hc hu.2

/-- Code points of which some are replaced by others that are no surrogates. -/
theorem map {f : CodePoint → CodePoint} (hf : ∀ c ∈ t, f c = c ∨ (f c).isSurrogate = false) :
    AddsNoRun t (t.map f) := by
  intro part hpart hin
  obtain ⟨source, hsource, rfl⟩ := List.infix_map_iff.1 hin
  have hsame : source.map f = source := by
    refine (List.map_congr_left fun c hc => ?_).trans (List.map_id source)
    rcases hf c (hsource.subset hc) with h | h
    · exact h
    · have := hpart (f c) (List.mem_map_of_mem hc)
      rw [h] at this
      cases this
  rwa [hsame]

end AddsNoRun

/-- A text that adds nothing to one that is read from bytes is read from bytes. -/
theorem IsReading.of_addsNoRun {s t : Text} (hs : IsReading s) (h : AddsNoRun s t) : IsReading t := by
  refine ⟨fun c hc => ?_, fun part hpart hsurrogates => hs.apart part (h part hsurrogates hpart) hsurrogates⟩
  cases hc' : c.isSurrogate with
  | false =>
    rw [isEncodable, hc']
    rfl
  | true =>
    have hin := h [c] (by simpa using hc') ((List.singleton_infix_iff c t).2 hc)
    exact hs.encodable c ((List.singleton_infix_iff c s).1 hin)

end Utf8
end SourceTidy
