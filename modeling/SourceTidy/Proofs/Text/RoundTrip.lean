import SourceTidy.Proofs.Attempt
import SourceTidy.Proofs.Text.Utf8

/-!
# Bytes, their text, and the bytes again

`IsSequence` lists the byte sequences that the standard calls well-formed. The bytes of a code point that is no surrogate are
exactly these (`isSequence_iff`), a reading takes exactly them for one code point each and escapes every other byte on its own,
and so a reading loses nothing: the text of any bytes is written as those bytes (`encode_decode`).
-/

namespace SourceTidy
namespace Utf8

/-! ## Well-formed sequences -/

/-- The well-formed sequences of the standard: no overlong form, no surrogate and nothing above `0x10FFFF`. -/
inductive IsSequence : Bytes → Prop where
  | one {a : UInt8} (ha : a.toNat ≤ 0x7F) : IsSequence [a]
  | two {a b : UInt8} (ha : 0xC2 ≤ a.toNat ∧ a.toNat ≤ 0xDF) (hb : isTail b) : IsSequence [a, b]
  | three {a b c : UInt8} (ha : 0xE0 ≤ a.toNat ∧ a.toNat ≤ 0xEF) (hb : isTail b) (hc : isTail c)
      (hlong : a.toNat = 0xE0 → 0xA0 ≤ b.toNat) (hsurrogate : a.toNat = 0xED → b.toNat ≤ 0x9F) : IsSequence [a, b, c]
  | four {a b c d : UInt8} (ha : 0xF0 ≤ a.toNat ∧ a.toNat ≤ 0xF4) (hb : isTail b) (hc : isTail c) (hd : isTail d)
      (hlong : a.toNat = 0xF0 → 0x90 ≤ b.toNat) (hlarge : a.toNat = 0xF4 → b.toNat ≤ 0x8F) : IsSequence [a, b, c, d]

theorem ofNat_eq {n : Nat} {b : UInt8} (h : n = b.toNat) : UInt8.ofNat n = b := by
  rw [h, UInt8.ofNat_toNat]

/-- Every well-formed sequence is the bytes of a code point that is no surrogate. -/
theorem IsSequence.exists_bytesOf {bytes : Bytes} (h : IsSequence bytes) :
    ∃ c : CodePoint, c.isSurrogate = false ∧ bytesOf c = bytes := by
  cases h with
  | @one a ha =>
    refine ⟨.ofNat a.toNat, isSurrogate_ofNat (by omega), ?_⟩
    have hn := CodePoint.toNat_ofNat (n := a.toNat) (by omega)
    rw [bytesOf, hn, if_pos (by omega), ofNat_eq rfl]
  | @two a b ha hb =>
    obtain ⟨hb, hbits⟩ := tailBits_of_isTail hb
    refine ⟨.ofNat (a.toNat % 0x20 * 0x40 + tailBits b), isSurrogate_ofNat (by omega), ?_⟩
    have hn := CodePoint.toNat_ofNat (n := a.toNat % 0x20 * 0x40 + tailBits b) (by omega)
    rw [bytesOf, hn, if_neg (by omega), if_pos (by omega), ofNat_eq (b := a) (by omega), ofNat_eq (b := b) (by omega)]
  | @three a b c ha hb hc hlong hsurrogate =>
    obtain ⟨hb, hbits⟩ := tailBits_of_isTail hb
    obtain ⟨hc, hbits'⟩ := tailBits_of_isTail hc
    have hno := isSurrogate_ofNat (n := a.toNat % 0x10 * 0x1000 + tailBits b * 0x40 + tailBits c) (by omega)
    refine ⟨_, hno, ?_⟩
    have hn := CodePoint.toNat_ofNat (n := a.toNat % 0x10 * 0x1000 + tailBits b * 0x40 + tailBits c) (by omega)
    rw [bytesOf, hno, hn, if_neg (by omega), if_neg (by omega), if_neg Bool.false_ne_true, if_pos (by omega),
      ofNat_eq (b := a) (by omega), ofNat_eq (b := b) (by omega), ofNat_eq (b := c) (by omega)]
  | @four a b c d ha hb hc hd hlong hlarge =>
    obtain ⟨hb, hbits⟩ := tailBits_of_isTail hb
    obtain ⟨hc, hbits'⟩ := tailBits_of_isTail hc
    obtain ⟨hd, hbits''⟩ := tailBits_of_isTail hd
    have hno := isSurrogate_ofNat
      (n := a.toNat % 8 * 0x40000 + tailBits b * 0x1000 + tailBits c * 0x40 + tailBits d) (by omega)
    refine ⟨_, hno, ?_⟩
    have hn := CodePoint.toNat_ofNat
      (n := a.toNat % 8 * 0x40000 + tailBits b * 0x1000 + tailBits c * 0x40 + tailBits d) (by omega)
    rw [bytesOf, hno, hn, if_neg (by omega), if_neg (by omega), if_neg Bool.false_ne_true, if_neg (by omega),
      ofNat_eq (b := a) (by omega), ofNat_eq (b := b) (by omega), ofNat_eq (b := c) (by omega),
      ofNat_eq (b := d) (by omega)]

/-- What a reading takes for one code point is a well-formed sequence. -/
theorem isSequence_of_head {a : UInt8} {rest : Bytes} {c : CodePoint} {extra : Nat} (h : head a rest = .scalar c extra) :
    IsSequence (a :: rest.take extra) := by
  revert h
  fun_cases head a rest with
  | case2 rest hextra =>
    rintro ⟨⟩
    have ha := extraOf_eq_some hextra
    exact .one (by omega)
  | case4 hextra b rest htail =>
    rintro ⟨⟩
    have ha := extraOf_eq_some hextra
    exact .two (by omega) htail
  | case11 hextra b d rest hsecond hthird =>
    rintro ⟨⟩
    rw [Bool.not_eq_true', Bool.not_eq_false] at hsecond hthird
    obtain ⟨htail, he0, hed, -⟩ := isSecond_eq_true hsecond
    have ha := extraOf_eq_some hextra
    exact .three (by omega) htail hthird he0 (by omega)
  | case21 n hzero hone htwo hextra b d e rest hsecond hthird hfourth =>
    rintro ⟨⟩
    rw [Bool.not_eq_true', Bool.not_eq_false] at hsecond hthird hfourth
    obtain ⟨htail, -, -, hf0, hf4⟩ := isSecond_eq_true hsecond
    have ha : 0xF0 ≤ a.toNat ∧ a.toNat < 0xF5 := by
      rcases extraOf_eq_some hextra with ⟨hn, -⟩ | ⟨hn, -⟩ | ⟨hn, -⟩ | ⟨-, ha⟩
      · exact absurd hn hzero
      · exact absurd hn hone
      · exact absurd hn htwo
      · exact ha
    exact .four (by omega) htail hthird hfourth hf0 (by omega)
  | _ => rintro ⟨⟩

/-- The well-formed sequences are the bytes of the code points that are no surrogates. -/
theorem isSequence_iff {bytes : Bytes} : IsSequence bytes ↔ ∃ c : CodePoint, c.isSurrogate = false ∧ bytesOf c = bytes := by
  refine ⟨IsSequence.exists_bytesOf, ?_⟩
  rintro ⟨c, hc, rfl⟩
  obtain ⟨a, tail, hbytes, hhead⟩ := head_bytesOf hc
  have := isSequence_of_head (hhead [])
  rwa [List.append_nil, List.take_length, ← hbytes] at this

/-- The bytes that a reading takes for one code point are the bytes of that code point. -/
theorem bytesOf_of_head {a : UInt8} {rest : Bytes} {c : CodePoint} {extra : Nat} (h : head a rest = .scalar c extra) :
    bytesOf c = a :: rest.take extra := by
  obtain ⟨d, hd, hbytes⟩ := (isSequence_of_head h).exists_bytesOf
  obtain ⟨a', tail, hbytes', hhead⟩ := head_bytesOf hd
  obtain ⟨rfl, rfl⟩ := List.cons.inj (hbytes'.symm.trans hbytes)
  have hsame := hhead (rest.drop extra)
  rw [List.take_append_drop, h] at hsame
  obtain rfl : c = d := (Head.scalar.inj hsame).1
  exact hbytes

/-! ## Reading and writing back -/

theorem toNat_escape (a : UInt8) : (escape a).toNat = 0xDC00 + a.toNat :=
  CodePoint.toNat_ofNat (by have := a.toNat_lt; omega)

theorem isSurrogate_escape (a : UInt8) : (escape a).isSurrogate = true := by
  have hlt := a.toNat_lt
  rw [CodePoint.isSurrogate, decide_eq_true_iff, toNat_escape]
  omega

theorem bytesOf_escape {a : UInt8} (h : 0x80 ≤ a.toNat) : bytesOf (escape a) = [a] := by
  rw [bytesOf, isSurrogate_escape, toNat_escape, if_neg (by omega), if_neg (by omega), if_pos rfl, ofNat_eq (b := a) (by omega)]

/-- The bytes of the text that a reading gives are the bytes that were read. -/
theorem flatMap_bytesOf_decodeAfter (skipped : Nat) (bytes : Bytes) :
    (decodeAfter skipped bytes).flatMap bytesOf = bytes.drop skipped := by
  fun_induction decodeAfter skipped bytes with
  | case1 n => exact List.drop_nil.symm
  | case2 n b rest ih => exact ih
  | case3 a rest c extra hhead ih =>
    rw [List.flatMap_cons, bytesOf_of_head hhead, ih, List.cons_append, List.take_append_drop, List.drop_zero]
  | case4 a rest reason extra hhead ih =>
    rw [List.flatMap_cons, bytesOf_escape (le_of_head_malformed hhead), ih, List.drop_zero, List.drop_zero,
      List.singleton_append]

/-- A text is written exactly when every one of its code points has bytes. -/
theorem encode_eq_ok_iff {t : Text} {bytes : Bytes} :
    encode t = .ok bytes ↔ (∀ c ∈ t, isEncodable c = true) ∧ t.flatMap bytesOf = bytes := by
  rw [← List.dropWhile_eq_nil_iff, encode]
  cases hdrop : t.dropWhile isEncodable with
  | nil => simp only [Except.ok.injEq, true_and]
  | cons c rest => simp only [reduceCtorEq, false_and]

/-- The text of any bytes is written as those bytes. -/
theorem encode_decode (bytes : Bytes) : encode (decode bytes) = .ok bytes := by
  rw [encode_eq_ok_iff]
  exact ⟨fun c hc => isEncodable_of_mem_decode hc, flatMap_bytesOf_decodeAfter 0 bytes⟩

/-- A strict reading gives the text of the bytes, as long as every part of them is a sequence. -/
theorem decodeStrictAfter_eq_ok_iff {skipped at_ : Nat} {bytes : Bytes} {t : Text} :
    decodeStrictAfter skipped at_ bytes = .ok t ↔ decodeAfter skipped bytes = t ∧ ∀ c ∈ t, c.isSurrogate = false := by
  fun_induction decodeStrictAfter skipped at_ bytes generalizing t with
  | case1 n =>
    rw [decodeAfter, Except.ok.injEq]
    exact ⟨fun h => ⟨h, fun c hc => absurd (h ▸ hc) List.not_mem_nil⟩, And.left⟩
  | case2 n _ b rest ih => exact ih
  | case3 _ a rest c extra hhead ih =>
    simp only [Except.map_eq_ok_iff, ih, decodeAfter, hhead]
    constructor
    · rintro ⟨u, ⟨rfl, hu⟩, rfl⟩
      exact ⟨rfl, List.forall_mem_cons.2 ⟨isSurrogate_of_head hhead, hu⟩⟩
    · rintro ⟨rfl, ht⟩
      exact ⟨_, ⟨rfl, (List.forall_mem_cons.1 ht).2⟩, rfl⟩
  | case4 _ a rest reason extra hhead =>
    simp only [decodeAfter, hhead, reduceCtorEq, false_iff, not_and]
    rintro rfl ht
    exact absurd (isSurrogate_escape a) (by simp [ht _ List.mem_cons_self])

/-- Bytes are read strictly exactly when they are those of a text of scalar values, and then as that text. -/
theorem decodeStrict_eq_ok_iff {bytes : Bytes} {t : Text} :
    decodeStrict bytes = .ok t ↔ (∀ c ∈ t, c.isSurrogate = false) ∧ t.flatMap bytesOf = bytes := by
  rw [decodeStrict, decodeStrictAfter_eq_ok_iff]
  constructor
  · rintro ⟨rfl, ht⟩
    exact ⟨ht, flatMap_bytesOf_decodeAfter 0 bytes⟩
  · rintro ⟨ht, rfl⟩
    exact ⟨decode_flatMap_bytesOf ht, ht⟩

theorem exists_encode_eq_error_iff {t : Text} : (∃ e, encode t = .error e) ↔ ∃ c ∈ t, isEncodable c = false := by
  have hok : encode t = .ok (t.flatMap bytesOf) ↔ _ := encode_eq_ok_iff
  cases h : encode t with
  | ok bytes =>
    have hall := (encode_eq_ok_iff.1 h).1
    simp only [reduceCtorEq, exists_false, false_iff, not_exists, not_and, Bool.not_eq_false]
    exact hall
  | error e =>
    refine iff_of_true ⟨e, rfl⟩ ?_
    by_contra hno
    simp only [not_exists, not_and, Bool.not_eq_false] at hno
    rw [h] at hok
    exact nomatch hok.2 ⟨hno, rfl⟩

theorem isEncodable_eq_false_iff {c : CodePoint} :
    isEncodable c = false ↔ c.isSurrogate = true ∧ ¬ (0xDC80 ≤ c.toNat ∧ c.toNat ≤ 0xDCFF) := by
  rw [isEncodable, Bool.or_eq_false_iff, Bool.not_eq_false', CodePoint.within, decide_eq_false_iff_not]

theorem decode_sequence {c : CodePoint} (hc : c.isSurrogate = false) (rest : Bytes) :
    decode (bytesOf c ++ rest) = c :: decode rest := by
  obtain ⟨a, tail, hbytes, hhead⟩ := head_bytesOf hc
  rw [hbytes, List.cons_append, decode, decodeAfter, hhead]
  simp only [decodeAfter_length]
  rfl

theorem decode_escape {a : UInt8} {rest : Bytes} (h : ∀ part, IsSequence part → ¬ part <+: a :: rest) :
    decode (a :: rest) = escape a :: decode rest := by
  rw [decode, decodeAfter]
  cases hhead : head a rest with
  | scalar c extra =>
    have hpre : a :: rest.take extra <+: a :: rest := (List.prefix_cons_inj a).2 (List.take_prefix extra rest)
    exact absurd hpre (h _ (isSequence_of_head hhead))
  | malformed reason extra => rfl

/-- No byte is lost: the text of any bytes is written as exactly those bytes, and only a surrogate that stands for no byte
keeps a text from being written. The text has one code point for every well-formed sequence, the one whose bytes it is, and
one surrogate of its own for every byte at which no well-formed sequence starts. -/
theorem text_keeps_every_byte :
    (∀ bytes, encode (decode bytes) = .ok bytes) ∧
      (∀ t, (∃ e, encode t = .error e) ↔
        ∃ c ∈ t, c.isSurrogate = true ∧ ¬ (0xDC80 ≤ c.toNat ∧ c.toNat ≤ 0xDCFF)) ∧
      (∀ part rest, IsSequence part →
        ∃ c : CodePoint, c.isSurrogate = false ∧ bytesOf c = part ∧ decode (part ++ rest) = c :: decode rest) ∧
      (∀ a rest, (∀ part, IsSequence part → ¬ part <+: a :: rest) →
        decode (a :: rest) = .ofNat (0xDC00 + a.toNat) :: decode rest) := by
  refine ⟨encode_decode, fun t => ?_, fun part rest hpart => ?_, fun a rest hnone => decode_escape hnone⟩
  · simp only [exists_encode_eq_error_iff, isEncodable_eq_false_iff]
  · obtain ⟨c, hc, rfl⟩ := hpart.exists_bytesOf
    exact ⟨c, hc, rfl, decode_sequence hc rest⟩

end Utf8
end SourceTidy
