import Mathlib.Data.List.TakeWhile
import SourceTidy.Text.Utf8

/-!
# Texts and their bytes

A code point that is no surrogate is read back from its bytes, whatever follows them, and so is a text of such code points
(`decode_flatMap_bytesOf`). The other way round, the text of any bytes has no surrogates but those that stand for a byte
(`isEncodable_of_mem_decode`), so that every text that comes from a file can be written back.
-/

namespace SourceTidy

namespace CodePoint

theorem ofNat_of_lt {n : Nat} (h : n < 0x110000) : ofNat n = ⟨n, h⟩ := dif_pos h

theorem toNat_ofNat {n : Nat} (h : n < 0x110000) : (ofNat n).toNat = n := by rw [ofNat_of_lt h]

theorem ofNat_toNat (c : CodePoint) : ofNat c.toNat = c := ofNat_of_lt c.isValid

theorem isSurrogate_eq_false_iff (c : CodePoint) : c.isSurrogate = false ↔ c.toNat < 0xD800 ∨ 0xE000 ≤ c.toNat := by
  rw [isSurrogate, decide_eq_false_iff_not]
  omega

end CodePoint

namespace Utf8

/-! ## One code point -/

/-- A byte with a number. -/
theorem toNat_byte {n : Nat} (h : n < 0x100) : (UInt8.ofNat n).toNat = n := by
  rw [UInt8.toNat_ofNat']
  exact Nat.mod_eq_of_lt h

theorem byte_lt {n : Nat} (h : n < 0x100) (b : UInt8) : (UInt8.ofNat n < b) = (n < b.toNat) := by
  rw [UInt8.lt_iff_toNat_lt, toNat_byte h]

theorem isTail_byte {n : Nat} (h : 0x80 ≤ n) (h' : n ≤ 0xBF) : isTail (UInt8.ofNat n) = true := by
  rw [isTail, toNat_byte (by omega), decide_eq_true_iff]
  exact ⟨h, h'⟩

theorem tailBits_byte {n : Nat} (h : n < 0x40) : tailBits (UInt8.ofNat (0x80 + n)) = n := by
  rw [tailBits, toNat_byte (by omega)]
  omega

theorem extraOf_byte {n : Nat} (h : n < 0x100) :
    extraOf (UInt8.ofNat n) =
      if n < 0x80 then some 0 else if n < 0xC2 then none else if n < 0xE0 then some 1 else if n < 0xF0 then some 2
      else if n < 0xF5 then some 3 else none := by
  simp only [extraOf, byte_lt h]
  rfl

theorem isSecond_byte {n m : Nat} (hn : n < 0x100) (hm : 0x80 ≤ m) (hm' : m ≤ 0xBF) (he0 : n = 0xE0 → 0xA0 ≤ m)
    (hed : n = 0xED → m < 0xA0) (hf0 : n = 0xF0 → 0x90 ≤ m) (hf4 : n = 0xF4 → m < 0x90) :
    isSecond (UInt8.ofNat n) (UInt8.ofNat m) = true := by
  have hm'' : m < 0x100 := by omega
  have heq (b : UInt8) : (UInt8.ofNat n == b) = decide (n = b.toNat) := by
    rw [Bool.eq_iff_iff, beq_iff_eq, decide_eq_true_iff, ← UInt8.toNat_inj, toNat_byte hn]
  have hle (b : UInt8) : (b ≤ UInt8.ofNat m) = (b.toNat ≤ m) := by
    rw [UInt8.le_iff_toNat_le, toNat_byte hm'']
  simp only [isSecond, isTail_byte hm hm', heq, hle, byte_lt hm'', Bool.true_and, Bool.and_eq_true, Bool.not_eq_true',
    Bool.and_eq_false_iff, decide_eq_false_iff_not]
  simp only [show (0xE0 : UInt8).toNat = 0xE0 from rfl, show (0xA0 : UInt8).toNat = 0xA0 from rfl,
    show (0xED : UInt8).toNat = 0xED from rfl, show (0xF0 : UInt8).toNat = 0xF0 from rfl,
    show (0x90 : UInt8).toNat = 0x90 from rfl, show (0xF4 : UInt8).toNat = 0xF4 from rfl]
  omega

/-- A code point that is no surrogate is read back from its bytes. -/
theorem head_bytesOf {c : CodePoint} (hc : c.isSurrogate = false) :
    ∃ a tail, bytesOf c = a :: tail ∧ ∀ rest, head a (tail ++ rest) = .scalar c tail.length := by
  have hvalid := c.isValid
  rw [CodePoint.isSurrogate_eq_false_iff] at hc
  have hnot : c.isSurrogate = false := (CodePoint.isSurrogate_eq_false_iff c).2 hc
  have hback {n : Nat} (h : n = c.toNat) : CodePoint.ofNat n = c := h ▸ CodePoint.ofNat_toNat c
  unfold bytesOf
  simp only [hnot, Bool.false_eq_true, if_false]
  split
  · rename_i h
    have hextra : extraOf (UInt8.ofNat c.toNat) = some 0 := by
      rw [extraOf_byte (by omega), if_pos h]
    refine ⟨_, [], rfl, fun rest => ?_⟩
    simp only [head, hextra, toNat_byte (n := c.toNat) (by omega), CodePoint.ofNat_toNat, List.length_nil]
  · split
    · have hextra : extraOf (UInt8.ofNat (0xC0 + c.toNat / 0x40)) = some 1 := by
        rw [extraOf_byte (by omega), if_neg (by omega), if_neg (by omega), if_pos (by omega)]
      refine ⟨_, [_], rfl, fun rest => ?_⟩
      simp only [head, hextra, List.cons_append, List.nil_append,
        isTail_byte (n := 0x80 + c.toNat % 0x40) (by omega) (by omega), if_true,
        tailBits_byte (n := c.toNat % 0x40) (by omega), toNat_byte (n := 0xC0 + c.toNat / 0x40) (by omega)]
      rw [hback (by omega)]
      rfl
    · split
      · have hextra : extraOf (UInt8.ofNat (0xE0 + c.toNat / 0x1000)) = some 2 := by
          rw [extraOf_byte (by omega), if_neg (by omega), if_neg (by omega), if_neg (by omega), if_pos (by omega)]
        refine ⟨_, [_, _], rfl, fun rest => ?_⟩
        simp only [head, hextra, List.cons_append, List.nil_append,
          isTail_byte (n := 0x80 + c.toNat % 0x40) (by omega) (by omega),
          isSecond_byte (n := 0xE0 + c.toNat / 0x1000) (m := 0x80 + c.toNat / 0x40 % 0x40) (by omega) (by omega)
            (by omega) (by omega) (by omega) (by omega) (by omega), Bool.not_true, Bool.false_eq_true, if_false,
          tailBits_byte (n := c.toNat % 0x40) (by omega), tailBits_byte (n := c.toNat / 0x40 % 0x40) (by omega),
          toNat_byte (n := 0xE0 + c.toNat / 0x1000) (by omega)]
        rw [hback (by omega)]
        rfl
      · have hextra : extraOf (UInt8.ofNat (0xF0 + c.toNat / 0x40000)) = some 3 := by
          rw [extraOf_byte (by omega), if_neg (by omega), if_neg (by omega), if_neg (by omega), if_neg (by omega),
            if_pos (by omega)]
        refine ⟨_, [_, _, _], rfl, fun rest => ?_⟩
        simp only [head, hextra, List.cons_append, List.nil_append,
          isTail_byte (n := 0x80 + c.toNat % 0x40) (by omega) (by omega),
          isTail_byte (n := 0x80 + c.toNat / 0x40 % 0x40) (by omega) (by omega),
          isSecond_byte (n := 0xF0 + c.toNat / 0x40000) (m := 0x80 + c.toNat / 0x1000 % 0x40) (by omega) (by omega)
            (by omega) (by omega) (by omega) (by omega) (by omega), Bool.not_true, Bool.false_eq_true, if_false,
          tailBits_byte (n := c.toNat % 0x40) (by omega), tailBits_byte (n := c.toNat / 0x40 % 0x40) (by omega),
          tailBits_byte (n := c.toNat / 0x1000 % 0x40) (by omega), toNat_byte (n := 0xF0 + c.toNat / 0x40000) (by omega)]
        rw [hback (by omega)]
        rfl

/-! ## Texts -/

theorem decodeAfter_length (tail rest : Bytes) : decodeAfter tail.length (tail ++ rest) = decodeAfter 0 rest := by
  induction tail with
  | nil => rfl
  | cons b tail ih => exact ih

/-- A text without surrogates is read back from its bytes. -/
theorem decode_flatMap_bytesOf {t : Text} (ht : ∀ c ∈ t, c.isSurrogate = false) : decode (t.flatMap bytesOf) = t := by
  unfold decode
  induction t with
  | nil => rfl
  | cons c t ih =>
    obtain ⟨a, tail, hbytes, hhead⟩ := head_bytesOf (ht c List.mem_cons_self)
    rw [List.flatMap_cons, hbytes, List.cons_append, decodeAfter, hhead]
    simp only [decodeAfter_length]
    rw [ih fun d hd => ht d (List.mem_cons_of_mem c hd)]

/-! ## The texts of bytes -/

theorem isSurrogate_ofNat {n : Nat} (h : n < 0xD800 ∨ 0xE000 ≤ n) : (CodePoint.ofNat n).isSurrogate = false := by
  rw [CodePoint.isSurrogate_eq_false_iff]
  by_cases hn : n < 0x110000
  · rwa [CodePoint.toNat_ofNat hn]
  · rw [CodePoint.ofNat, dif_neg hn]
    exact .inr (by decide)

theorem tailBits_of_isTail {b : UInt8} (h : isTail b = true) : b.toNat = 0x80 + tailBits b ∧ tailBits b < 0x40 := by
  rw [isTail, decide_eq_true_iff] at h
  unfold tailBits
  omega

/-- The first byte of a sequence, by the number of bytes that follow it. -/
theorem extraOf_eq_some {a : UInt8} {n : Nat} (h : extraOf a = some n) :
    n = 0 ∧ a.toNat < 0x80 ∨ n = 1 ∧ 0xC2 ≤ a.toNat ∧ a.toNat < 0xE0 ∨ n = 2 ∧ 0xE0 ≤ a.toNat ∧ a.toNat < 0xF0 ∨
      n = 3 ∧ 0xF0 ≤ a.toNat ∧ a.toNat < 0xF5 := by
  have hbyte := extraOf_byte a.toNat_lt
  rw [UInt8.ofNat_toNat, h] at hbyte
  split at hbyte
  · cases hbyte
    omega
  · split at hbyte
    · cases hbyte
    · split at hbyte
      · cases hbyte
        omega
      · split at hbyte
        · cases hbyte
          omega
        · split at hbyte
          · cases hbyte
            omega
          · cases hbyte

theorem isSecond_eq_true {a b : UInt8} (h : isSecond a b = true) :
    isTail b = true ∧ (a.toNat = 0xE0 → 0xA0 ≤ b.toNat) ∧ (a.toNat = 0xED → b.toNat < 0xA0) ∧
      (a.toNat = 0xF0 → 0x90 ≤ b.toNat) ∧ (a.toNat = 0xF4 → b.toNat < 0x90) := by
  have heq (x : UInt8) : (a == x) = decide (a.toNat = x.toNat) := by
    rw [Bool.eq_iff_iff, beq_iff_eq, decide_eq_true_iff, ← UInt8.toNat_inj]
  simp only [isSecond, heq, Bool.and_eq_true, Bool.not_eq_true', Bool.and_eq_false_iff, decide_eq_false_iff_not,
    UInt8.lt_iff_toNat_lt, UInt8.le_iff_toNat_le] at h
  obtain ⟨⟨⟨⟨htail, he0⟩, hed⟩, hf0⟩, hf4⟩ := h
  have he0' : ¬ a.toNat = 0xE0 ∨ ¬ b.toNat < 0xA0 := he0
  have hed' : ¬ a.toNat = 0xED ∨ ¬ 0xA0 ≤ b.toNat := hed
  have hf0' : ¬ a.toNat = 0xF0 ∨ ¬ b.toNat < 0x90 := hf0
  have hf4' : ¬ a.toNat = 0xF4 ∨ ¬ 0x90 ≤ b.toNat := hf4
  refine ⟨htail, ?_, ?_, ?_, ?_⟩ <;> omega

/-- No sequence stands for a surrogate. -/
theorem isSurrogate_of_head {a : UInt8} {rest : Bytes} {c : CodePoint} {extra : Nat}
    (h : head a rest = .scalar c extra) : c.isSurrogate = false := by
  revert h
  fun_cases head a rest with
  | case2 rest hextra =>
    rintro ⟨⟩
    have ha := extraOf_eq_some hextra
    exact isSurrogate_ofNat (by omega)
  | case4 hextra b rest htail =>
    rintro ⟨⟩
    have hb := tailBits_of_isTail htail
    exact isSurrogate_ofNat (by omega)
  | case11 hextra b d rest hsecond hthird =>
    rintro ⟨⟩
    rw [Bool.not_eq_true', Bool.not_eq_false] at hsecond hthird
    obtain ⟨htail, -, hed, -⟩ := isSecond_eq_true hsecond
    have ha := extraOf_eq_some hextra
    have hb := tailBits_of_isTail htail
    have hd := tailBits_of_isTail hthird
    exact isSurrogate_ofNat (by omega)
  | case21 n hzero hone htwo hextra b d e rest hsecond hthird hfourth =>
    rintro ⟨⟩
    rw [Bool.not_eq_true', Bool.not_eq_false] at hsecond hthird hfourth
    obtain ⟨htail, -, -, hf0, -⟩ := isSecond_eq_true hsecond
    have ha : 0xF0 ≤ a.toNat ∧ a.toNat < 0xF5 := by
      rcases extraOf_eq_some hextra with ⟨hn, -⟩ | ⟨hn, -⟩ | ⟨hn, -⟩ | ⟨-, ha⟩
      · exact absurd hn hzero
      · exact absurd hn hone
      · exact absurd hn htwo
      · exact ha
    have hb := tailBits_of_isTail htail
    have hd := tailBits_of_isTail hthird
    have he := tailBits_of_isTail hfourth
    exact isSurrogate_ofNat (by omega)
  | _ => exact nofun

theorem le_of_head_malformed {a : UInt8} {rest : Bytes} {reason : Malformed} {extra : Nat}
    (h : head a rest = .malformed reason extra) : 0x80 ≤ a.toNat := by
  refine Nat.le_of_not_lt fun hlt => ?_
  have hextra : extraOf a = some 0 := by
    have := extraOf_byte a.toNat_lt
    rwa [UInt8.ofNat_toNat, if_pos hlt] at this
  simp only [head, hextra] at h
  cases h

theorem isEncodable_escape {a : UInt8} (h : 0x80 ≤ a.toNat) : isEncodable (escape a) = true := by
  have hlt := a.toNat_lt
  rw [isEncodable, escape, CodePoint.within, CodePoint.toNat_ofNat (by omega), Bool.or_eq_true, decide_eq_true_iff]
  omega

/-- Every code point of a text that was read from bytes can be written back. -/
theorem isEncodable_of_mem_decode {bytes : Bytes} {c : CodePoint} (h : c ∈ decode bytes) : isEncodable c = true := by
  unfold decode at h
  generalize 0 = skipped at h
  fun_induction decodeAfter skipped bytes with
  | case1 n => cases h
  | case2 n b rest ih => exact ih h
  | case3 a rest d extra hhead ih =>
    rcases List.mem_cons.1 h with rfl | h
    · rw [isEncodable, isSurrogate_of_head hhead]
      rfl
    · exact ih h
  | case4 a rest reason extra hhead ih =>
    rcases List.mem_cons.1 h with rfl | h
    · exact isEncodable_escape (le_of_head_malformed hhead)
    · exact ih h

/-- A text without surrogates is written as the bytes of its code points. -/
theorem encode_of_noSurrogate {t : Text} (ht : ∀ c ∈ t, c.isSurrogate = false) : encode t = .ok (t.flatMap bytesOf) := by
  have hnil : t.dropWhile isEncodable = [] := by
    rw [List.dropWhile_eq_nil_iff]
    intro c hc
    rw [isEncodable, ht c hc]
    rfl
  simp only [encode, hnil]

end Utf8
end SourceTidy
