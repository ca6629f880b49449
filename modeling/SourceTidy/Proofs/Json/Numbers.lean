import SourceTidy.Proofs.Json.Strings

/-!
# Numbers of JSON documents

The parts of a number are taken one after the other, each as far as it goes (`Skips`), and together they are a number of the
grammar (`isNumber_of_number`, `number_of_isNumber`). One limit is not in the grammar: an integer of too many digits is not
taken in (`LongInteger`).
-/

namespace SourceTidy.Json

open Text (lineFeed)

variable {t r s : Text}

/-! ## Digits -/

/-- A text does not go on with a code point of a class. -/
def Stops (p : CodePoint → Bool) (t : Text) : Prop := t.head?.any p = false

instance (p : CodePoint → Bool) (t : Text) : Decidable (Stops p t) := inferInstanceAs (Decidable (_ = _))

variable {p : CodePoint → Bool}

theorem stops_nil (p : CodePoint → Bool) : Stops p [] := rfl

theorem stops_cons {c : CodePoint} : Stops p (c :: t) ↔ p c = false := Iff.rfl

theorem stops_dropWhile (p : CodePoint → Bool) (t : Text) : Stops p (t.dropWhile p) := by
  have := List.head?_dropWhile_not p t
  unfold Stops
  cases h : (t.dropWhile p).head? with
  | none => rfl
  | some c =>
    rw [h] at this
    simpa using this

theorem Stops.dropWhile_eq (h : Stops p t) : t.dropWhile p = t := by
  cases t with
  | nil => rfl
  | cons c t => exact List.dropWhile_cons_of_neg (by simp [stops_cons.1 h])

theorem Stops.takeWhile_eq (h : Stops p t) : t.takeWhile p = [] := by
  cases t with
  | nil => rfl
  | cons c t => exact List.takeWhile_cons_of_neg (by simp [stops_cons.1 h])

theorem dropWhile_append {x : Text} (hx : ∀ c ∈ x, p c = true) (h : Stops p t) : (x ++ t).dropWhile p = t := by
  rw [List.dropWhile_append_of_pos hx, h.dropWhile_eq]

theorem takeWhile_append {x : Text} (hx : ∀ c ∈ x, p c = true) (h : Stops p t) : (x ++ t).takeWhile p = x := by
  rw [List.takeWhile_append_of_pos hx, h.takeWhile_eq, List.append_nil]

theorem isLocal_dropWhile (hp : p lineFeed = false) : IsLocal (List.dropWhile p) := by
  intro t s ht
  induction t with
  | nil => cases ht
  | cons c t ih =>
    rw [List.cons_append, List.dropWhile_cons, List.dropWhile_cons]
    split
    · rename_i hc
      exact ih (List.mem_of_ne_of_mem (lineFeed_ne_of_class hp hc) ht)
    · exact ⟨rfl, ht⟩

theorem takeWhile_append_of_lineFeed (hp : p lineFeed = false) (ht : lineFeed ∈ t) (s : Text) :
    (t ++ s).takeWhile p = t.takeWhile p := by
  induction t with
  | nil => cases ht
  | cons c t ih =>
    rw [List.cons_append, List.takeWhile_cons, List.takeWhile_cons]
    split
    · rename_i hc
      rw [ih (List.mem_of_ne_of_mem (lineFeed_ne_of_class hp hc) ht)]
    · rfl

theorem isDigits_takeWhile {c : CodePoint} (hc : c.isAsciiDigit = true) (rest : Text) :
    IsDigits (c :: rest.takeWhile CodePoint.isAsciiDigit) :=
  ⟨List.cons_ne_nil _ _, List.forall_mem_cons.2 ⟨hc, fun _ hd => List.mem_takeWhile_imp hd⟩⟩

theorem IsDigits.exists_cons (h : IsDigits t) : ∃ c rest, t = c :: rest ∧ c.isAsciiDigit = true ∧
    ∀ d ∈ rest, d.isAsciiDigit = true := by
  obtain ⟨c, rest, rfl⟩ := List.exists_cons_of_ne_nil h.ne_nil
  exact ⟨c, rest, rfl, (List.forall_mem_cons.1 h.isDigit).1, (List.forall_mem_cons.1 h.isDigit).2⟩

/-! ## The parts of a number -/

/-- The digits of an integer are taken as far as they go. -/
theorem isNatural_of_integerPart {n : Nat} (h : integerPart t = some (n, r)) :
    ∃ digits, IsNatural digits ∧ n = digits.length ∧ t = digits ++ r ∧
      (digits = [zero] ∨ Stops CodePoint.isAsciiDigit r) := by
  cases t with
  | nil => cases h
  | cons c rest =>
    rw [integerPart] at h
    split at h
    · rename_i hzero
      cases h
      exact ⟨[zero], isNatural_zero, rfl, by rw [hzero]; rfl, .inl rfl⟩
    · split at h
      · rename_i hzero hdigit
        cases h
        have hc : c.isAsciiDigit = true := by
          simp only [CodePoint.isAsciiDigit, CodePoint.within, decide_eq_true_eq] at hdigit ⊢
          omega
        refine ⟨_, ⟨isDigits_takeWhile hc rest, fun _ heq => absurd (List.cons.inj heq).1 hzero⟩, rfl, ?_,
          .inr (stops_dropWhile _ rest)⟩
        rw [List.cons_append, List.takeWhile_append_dropWhile]
      · cases h

theorem integerPart_append {digits : Text} (h : IsNatural digits) (hr : digits = [zero] ∨ Stops CodePoint.isAsciiDigit r) :
    integerPart (digits ++ r) = some (digits.length, r) := by
  obtain ⟨c, rest, rfl, hc, hrest⟩ := h.exists_cons
  rw [List.cons_append, integerPart]
  by_cases hzero : c = '0'
  · obtain rfl := h.eq_zero rest (by rw [hzero])
    rw [if_pos hzero]
    rfl
  · have hstops : Stops CodePoint.isAsciiDigit r := by
      refine hr.resolve_left fun heq => hzero (List.cons.inj heq).1
    have hdigit : c.within 0x31 0x39 = true := by
      have hne : c.toNat ≠ 0x30 := fun h => hzero (CodePoint.ext h)
      simp only [CodePoint.isAsciiDigit, CodePoint.within, decide_eq_true_eq] at hc ⊢
      omega
    rw [if_neg hzero, if_pos hdigit, takeWhile_append hrest hstops, dropWhile_append hrest hstops]
    rfl

/-- What a text may begin with is taken as far as it goes. -/
structure Skips (part : Text → Prop) (skip : Text → Text) : Prop where
  taken : ∀ t, ∃ x, part x ∧ t = x ++ skip t
  append_digits : ∀ x y, part x → x ≠ [] → (∀ c ∈ y, c.isAsciiDigit = true) → part (x ++ y)
  longest : ∀ x r, part x → x ≠ [] → Stops CodePoint.isAsciiDigit r → skip (x ++ r) = r

namespace Skips

variable {part : Text → Prop} {skip : Text → Text} (h : Skips part skip)
include h

/-- Nothing is taken where nothing can be. -/
theorem eq_self_iff : skip t = t ↔ ∀ x, part x → x <+: t → x = [] := by
  constructor
  · rintro heq x hx ⟨r, rfl⟩
    by_contra hne
    have hdigits : ∀ c ∈ r.takeWhile CodePoint.isAsciiDigit, c.isAsciiDigit = true := fun _ hc => List.mem_takeWhile_imp hc
    have hskip := h.longest _ _ (h.append_digits x _ hx hne hdigits) (List.append_ne_nil_of_left_ne_nil hne _)
      (stops_dropWhile CodePoint.isAsciiDigit r)
    rw [List.append_assoc, List.takeWhile_append_dropWhile, heq] at hskip
    have hlength := congrArg List.length hskip
    have := length_dropWhile_le CodePoint.isAsciiDigit r
    have := List.length_pos_iff.2 hne
    rw [List.length_append] at hlength
    omega
  · intro hnone
    obtain ⟨x, hx, ht⟩ := h.taken t
    obtain rfl := hnone x hx ⟨skip t, ht.symm⟩
    exact ht.symm

theorem length_le (t : Text) : (skip t).length ≤ t.length := by
  obtain ⟨x, -, ht⟩ := h.taken t
  have := congrArg List.length ht
  rw [List.length_append] at this
  omega

theorem eq_self_of_length (hlength : t.length ≤ (skip t).length) : skip t = t := by
  obtain ⟨x, -, ht⟩ := h.taken t
  have := congrArg List.length ht
  rw [List.length_append] at this
  obtain rfl : x = [] := List.eq_nil_of_length_eq_zero (by omega)
  exact ht.symm

end Skips

theorem skips_skipFraction : Skips IsFraction skipFraction where
  taken t := by
    fun_cases skipFraction t with
    | case1 c d rest h =>
      obtain ⟨rfl, hd⟩ := h
      refine ⟨_, .some (isDigits_takeWhile hd rest), ?_⟩
      rw [List.cons_append, List.cons_append, List.takeWhile_append_dropWhile]
    | case2 => exact ⟨[], .none, rfl⟩
    | case3 => exact ⟨[], .none, rfl⟩
  append_digits x y hx hne hy := by
    cases hx with
    | none => exact absurd rfl hne
    | some h =>
      exact .some ⟨List.append_ne_nil_of_left_ne_nil h.ne_nil y, fun c hc => (List.mem_append.1 hc).elim (h.isDigit c) (hy c)⟩
  longest x r hx hne hr := by
    cases hx with
    | none => exact absurd rfl hne
    | some h =>
      obtain ⟨c, rest, rfl, hc, hrest⟩ := h.exists_cons
      simp only [List.cons_append]
      rw [skipFraction, if_pos ⟨rfl, hc⟩, dropWhile_append hrest hr]

theorem exists_sign (t : Text) :
    ∃ sign, (sign = [] ∨ sign = [plus] ∨ sign = [minus]) ∧ t = sign ++ skipSign t := by
  fun_cases skipSign t with
  | case1 c rest h =>
    rcases h with rfl | rfl
    · exact ⟨[plus], .inr (.inl rfl), rfl⟩
    · exact ⟨[minus], .inr (.inr rfl), rfl⟩
  | case2 => exact ⟨[], .inl rfl, rfl⟩
  | case3 => exact ⟨[], .inl rfl, rfl⟩

theorem skipSign_append {sign : Text} (hsign : sign = [] ∨ sign = [plus] ∨ sign = [minus]) {c : CodePoint}
    (hc : c.isAsciiDigit = true) (rest : Text) : skipSign (sign ++ c :: rest) = c :: rest := by
  rcases hsign with rfl | rfl | rfl
  · rw [List.nil_append, skipSign, if_neg]
    rintro (rfl | rfl) <;> exact absurd hc (by decide)
  · rfl
  · rfl

theorem skips_skipExponent : Skips IsExponent skipExponent where
  taken t := by
    fun_cases skipExponent t with
    | case1 c rest h =>
      obtain ⟨hletter, hdigit⟩ := h
      obtain ⟨sign, hsign, hrest⟩ := exists_sign rest
      cases hskip : skipSign rest with
      | nil =>
        rw [hskip] at hdigit
        cases hdigit
      | cons d more =>
        rw [hskip] at hdigit hrest
        have hd : d.isAsciiDigit = true := hdigit
        refine ⟨_, .some hletter hsign (isDigits_takeWhile hd more), ?_⟩
        rw [List.dropWhile_cons_of_pos hd, List.cons_append, List.append_assoc, List.cons_append,
          List.takeWhile_append_dropWhile, ← hrest]
    | case2 => exact ⟨[], .none, rfl⟩
    | case3 => exact ⟨[], .none, rfl⟩
  append_digits x y hx hne hy := by
    cases hx with
    | none => exact absurd rfl hne
    | some hletter hsign h =>
      rw [List.cons_append, List.append_assoc]
      exact .some hletter hsign
        ⟨List.append_ne_nil_of_left_ne_nil h.ne_nil y, fun c hc => (List.mem_append.1 hc).elim (h.isDigit c) (hy c)⟩
  longest x r hx hne hr := by
    cases hx with
    | none => exact absurd rfl hne
    | some hletter hsign h =>
      obtain ⟨c, rest, rfl, hc, hrest⟩ := h.exists_cons
      simp only [List.cons_append, List.append_assoc]
      rw [skipExponent, skipSign_append hsign hc, if_pos ⟨hletter, hc⟩, List.dropWhile_cons_of_pos hc,
        dropWhile_append hrest hr]

theorem isAsciiDigit_lineFeed : lineFeed.isAsciiDigit = false := by decide

theorem isLocal_skipFraction : IsLocal skipFraction := by
  intro t s ht
  match t with
  | [] => cases ht
  | [c] =>
    obtain rfl := List.mem_singleton.1 ht
    refine ⟨?_, ht⟩
    cases s with
    | nil => rfl
    | cons d s => rw [List.singleton_append, skipFraction, if_neg fun h => absurd h.1 (by decide)]; rfl
  | c :: d :: rest =>
    rw [List.cons_append, List.cons_append, skipFraction, skipFraction]
    split
    · rename_i h
      obtain ⟨rfl, hd⟩ := h
      have hbehind : lineFeed ∈ d :: rest := List.mem_of_ne_of_mem (by decide) ht
      have hd' : lineFeed ≠ d := lineFeed_ne_of_class isAsciiDigit_lineFeed hd
      exact isLocal_dropWhile isAsciiDigit_lineFeed rest s (List.mem_of_ne_of_mem hd' hbehind)
    · exact ⟨rfl, ht⟩

theorem isLocal_skipSign : IsLocal skipSign := by
  intro t s ht
  cases t with
  | nil => cases ht
  | cons c rest =>
    rw [List.cons_append, skipSign, skipSign]
    split
    · rename_i h
      refine ⟨rfl, (List.mem_cons.1 ht).resolve_left ?_⟩
      rintro rfl
      exact absurd h (by decide)
    · exact ⟨rfl, ht⟩

theorem isLocal_skipExponent : IsLocal skipExponent := by
  intro t s ht
  cases t with
  | nil => cases ht
  | cons c rest =>
    rw [List.cons_append, skipExponent, skipExponent]
    by_cases hletter : c = 'e' ∨ c = 'E'
    · have hrest : lineFeed ∈ rest := by
        refine (List.mem_cons.1 ht).resolve_left ?_
        rintro rfl
        exact absurd hletter (by decide)
      obtain ⟨hsign, hmem⟩ := isLocal_skipSign rest s hrest
      have hhead : (skipSign rest ++ s).head? = (skipSign rest).head? := by
        obtain ⟨d, more, heq⟩ := List.exists_cons_of_ne_nil (List.ne_nil_of_mem hmem)
        rw [heq]
        rfl
      rw [hsign, hhead]
      split
      · exact isLocal_dropWhile isAsciiDigit_lineFeed _ s hmem
      · exact ⟨rfl, ht⟩
    · rw [if_neg fun h => hletter h.1, if_neg fun h => hletter h.1]
      exact ⟨rfl, ht⟩

theorem integerPart_append_of_lineFeed (ht : lineFeed ∈ t) (s : Text) :
    integerPart (t ++ s) = (integerPart t).map fun x => (x.1, x.2 ++ s) := by
  cases t with
  | nil => cases ht
  | cons c rest =>
    rw [List.cons_append, integerPart, integerPart]
    split
    · rfl
    · split
      · rename_i hdigit
        have hrest : lineFeed ∈ rest := by
          refine (List.mem_cons.1 ht).resolve_left ?_
          rintro rfl
          exact absurd hdigit (by decide)
        rw [takeWhile_append_of_lineFeed isAsciiDigit_lineFeed hrest,
          (isLocal_dropWhile isAsciiDigit_lineFeed rest s hrest).1]
        rfl
      · rfl

/-! ## Numbers -/

/-- An integer of too many digits, at the head of a text. -/
inductive LongInteger : Text → Prop where
  | intro {sign digits r : Text} (hsign : IsSign sign) (hdigits : IsNatural digits) (hlong : maxDigits < digits.length)
    (hend : Stops CodePoint.isAsciiDigit r) (hfraction : ∀ x, IsFraction x → x <+: r → x = [])
    (hexponent : ∀ x, IsExponent x → x <+: r → x = []) : LongInteger (sign ++ (digits ++ r))

/-- A text behind the minus at its head, if there is one. -/
def unsigned (t : Text) : Text := if t.head? = some minus then t.tail else t

theorem exists_minus (t : Text) : ∃ sign, IsSign sign ∧ t = sign ++ unsigned t := by
  unfold unsigned
  split
  · rename_i h
    obtain ⟨rest, rfl⟩ := List.head?_eq_some_iff.1 h
    exact ⟨[minus], .minus, rfl⟩
  · exact ⟨[], .plus, rfl⟩

theorem unsigned_append {sign digits : Text} (hsign : IsSign sign) (hdigits : IsDigits digits) (r : Text) :
    unsigned (sign ++ (digits ++ r)) = digits ++ r := by
  obtain ⟨c, rest, rfl, hc, -⟩ := hdigits.exists_cons
  cases hsign with
  | minus => rfl
  | plus =>
    rw [List.nil_append, unsigned, if_neg]
    intro h
    obtain rfl : c = minus := Option.some.inj h
    exact absurd hc (by decide)

theorem isLocal_unsigned : IsLocal unsigned := by
  intro t s ht
  cases t with
  | nil => cases ht
  | cons c rest =>
    unfold unsigned
    rw [List.cons_append, List.head?_cons, List.head?_cons]
    split
    · rename_i h
      refine ⟨rfl, (List.mem_cons.1 ht).resolve_left ?_⟩
      rintro rfl
      exact absurd h (by decide)
    · exact ⟨rfl, ht⟩

theorem number_eq (t : Text) :
    number t =
      match integerPart (unsigned t) with
      | none => .error (.broken .value t)
      | some (count, after) =>
        if (skipExponent (skipFraction after)).length = after.length ∧ maxDigits < count then .error (.tooManyDigits count)
        else .ok (skipExponent (skipFraction after)) := rfl

/-- Nothing is left out behind an integer exactly when neither a fraction nor an exponent is there. -/
theorem length_skip_eq_iff :
    (skipExponent (skipFraction t)).length = t.length ↔ skipFraction t = t ∧ skipExponent t = t := by
  constructor
  · intro h
    have hfraction : skipFraction t = t :=
      skips_skipFraction.eq_self_of_length (h ▸ skips_skipExponent.length_le (skipFraction t))
    rw [hfraction] at h
    exact ⟨hfraction, skips_skipExponent.eq_self_of_length h.ge⟩
  · rintro ⟨hfraction, hexponent⟩
    rw [hfraction, hexponent]

theorem isNumber_of_number (h : number t = .ok r) : ∃ n, IsNumber n ∧ t = n ++ r := by
  rw [number_eq] at h
  obtain ⟨sign, hsign, ht⟩ := exists_minus t
  cases hinteger : integerPart (unsigned t) with
  | none =>
    rw [hinteger] at h
    cases h
  | some x =>
    obtain ⟨count, after⟩ := x
    rw [hinteger] at h
    obtain ⟨digits, hdigits, -, hunsigned, -⟩ := isNatural_of_integerPart hinteger
    obtain ⟨fraction, hfraction, hafter⟩ := skips_skipFraction.taken after
    obtain ⟨exponent, hexponent, hrest⟩ := skips_skipExponent.taken (skipFraction after)
    simp only at h
    split at h
    · cases h
    · refine ⟨_, .parts hsign hdigits hfraction hexponent, ?_⟩
      rw [ht, hunsigned, hafter, hrest, Except.ok.inj h]
      simp only [List.append_assoc]

theorem reason_of_number {e : Failure} (h : number t = .error e) :
    e = .broken .value t ∨ (∃ count, e = .tooManyDigits count) ∧ LongInteger t := by
  rw [number_eq] at h
  obtain ⟨sign, hsign, ht⟩ := exists_minus t
  cases hinteger : integerPart (unsigned t) with
  | none =>
    rw [hinteger] at h
    cases h
    exact .inl rfl
  | some x =>
    obtain ⟨count, after⟩ := x
    rw [hinteger] at h
    simp only at h
    split at h
    · rename_i hlong
      cases h
      obtain ⟨digits, hdigits, rfl, hunsigned, hend⟩ := isNatural_of_integerPart hinteger
      obtain ⟨hfraction, hexponent⟩ := length_skip_eq_iff.1 hlong.1
      have hstops : Stops CodePoint.isAsciiDigit after := hend.resolve_left fun heq => by
        rw [heq] at hlong
        exact absurd hlong.2 (by decide)
      refine .inr ⟨⟨_, rfl⟩, ?_⟩
      rw [ht, hunsigned]
      exact .intro hsign hdigits hlong.2 hstops (skips_skipFraction.eq_self_iff.1 hfraction)
        (skips_skipExponent.eq_self_iff.1 hexponent)
    · cases h

/-- A number could go on with it. -/
def goesOn (c : CodePoint) : Bool := c.isAsciiDigit || c == '.' || c == 'e' || c == 'E'

theorem Stops.mono {q : CodePoint → Bool} (h : Stops q t) (hpq : ∀ c, p c = true → q c = true) : Stops p t := by
  cases t with
  | nil => rfl
  | cons c t =>
    rw [stops_cons, ← Bool.not_eq_true] at h ⊢
    exact fun hc => h (hpq c hc)

theorem IsExponent.stops (h : IsExponent t) (hr : Stops goesOn r) (hp : ∀ c, p c = true → goesOn c = true)
    (he : p 'e' = false) (hE : p 'E' = false) : Stops p (t ++ r) := by
  cases h with
  | none => exact hr.mono hp
  | some hletter _ _ =>
    rcases hletter with rfl | rfl
    · exact he
    · exact hE

theorem skipFraction_append {fraction exponent : Text} (hfraction : IsFraction fraction) (hexponent : IsExponent exponent)
    (hr : Stops goesOn r) : skipFraction (fraction ++ (exponent ++ r)) = exponent ++ r := by
  have hdigit : Stops CodePoint.isAsciiDigit (exponent ++ r) :=
    hexponent.stops hr (fun c hc => by simp [goesOn, hc]) (by decide) (by decide)
  have hpoint : Stops (· == '.') (exponent ++ r) :=
    hexponent.stops hr (fun c hc => by simp [goesOn, hc]) (by decide) (by decide)
  cases hfraction with
  | none =>
    rw [List.nil_append]
    refine skips_skipFraction.eq_self_iff.2 fun x hx hprefix => ?_
    cases hx with
    | none => rfl
    | some h =>
      obtain ⟨more, hmore⟩ := hprefix
      rw [← hmore] at hpoint
      exact absurd hpoint (by simp [Stops])
  | some h => exact skips_skipFraction.longest _ _ (.some h) (List.cons_ne_nil _ _) hdigit

theorem skipExponent_append {exponent : Text} (hexponent : IsExponent exponent) (hr : Stops goesOn r) :
    skipExponent (exponent ++ r) = r := by
  cases hexponent with
  | none =>
    rw [List.nil_append]
    refine skips_skipExponent.eq_self_iff.2 fun x hx hprefix => ?_
    cases hx with
    | none => rfl
    | some hletter _ _ =>
      obtain ⟨more, rfl⟩ := hprefix
      rcases hletter with rfl | rfl <;> exact absurd hr (by simp [Stops, goesOn])
  | some hletter hsign h =>
    exact skips_skipExponent.longest _ _ (.some hletter hsign h) (List.cons_ne_nil _ _)
      (hr.mono fun c hc => by simp [goesOn, hc])

theorem number_of_isNumber {n : Text} (hn : IsNumber n) (hr : Stops goesOn r) :
    number (n ++ r) = .ok r ∨ ∃ count, number (n ++ r) = .error (.tooManyDigits count) := by
  cases hn with
  | @parts sign digits fraction exponent hsign hdigits hfraction hexponent =>
    have hstops : Stops CodePoint.isAsciiDigit (fraction ++ (exponent ++ r)) := by
      cases hfraction with
      | none => exact hexponent.stops hr (fun c hc => by simp [goesOn, hc]) (by decide) (by decide)
      | some _ => rfl
    simp only [List.append_assoc]
    rw [number_eq, unsigned_append hsign hdigits.toIsDigits, integerPart_append hdigits (.inr hstops)]
    simp only [skipFraction_append hfraction hexponent hr, skipExponent_append hexponent hr]
    split
    · exact .inr ⟨_, rfl⟩
    · exact .inl rfl

/-- An integer with too many digits is refused with their number. -/
theorem number_of_long {sign digits : Text} (hsign : IsSign sign) (hdigits : IsNatural digits)
    (hlong : maxDigits < digits.length) (hend : Stops CodePoint.isAsciiDigit r)
    (hfraction : ∀ x, IsFraction x → x <+: r → x = []) (hexponent : ∀ x, IsExponent x → x <+: r → x = []) :
    number (sign ++ (digits ++ r)) = .error (.tooManyDigits digits.length) := by
  have hskip := length_skip_eq_iff.2 ⟨skips_skipFraction.eq_self_iff.2 hfraction, skips_skipExponent.eq_self_iff.2 hexponent⟩
  rw [number_eq, unsigned_append hsign hdigits.toIsDigits, integerPart_append hdigits (.inr hend)]
  exact if_pos ⟨hskip, hlong⟩

theorem number_of_longInteger (h : LongInteger t) : ∃ count, number t = .error (.tooManyDigits count) := by
  cases h with
  | intro hsign hdigits hlong hend hfraction hexponent =>
    exact ⟨_, number_of_long hsign hdigits hlong hend hfraction hexponent⟩

theorem number_append (ht : lineFeed ∈ t) (s : Text) : number (t ++ s) = extend s (· ++ s) (number t) := by
  obtain ⟨hunsigned, hmem⟩ := isLocal_unsigned t s ht
  rw [number_eq, number_eq, hunsigned, integerPart_append_of_lineFeed hmem]
  cases hinteger : integerPart (unsigned t) with
  | none => rfl
  | some x =>
    obtain ⟨count, after⟩ := x
    have hafter : lineFeed ∈ after := by
      obtain ⟨digits, hdigits, -, heq, -⟩ := isNatural_of_integerPart hinteger
      rw [heq] at hmem
      refine (List.mem_append.1 hmem).resolve_left fun h => ?_
      exact absurd (hdigits.isDigit _ h) (by decide)
    obtain ⟨hfraction, hmem'⟩ := isLocal_skipFraction after s hafter
    obtain ⟨hexponent, -⟩ := isLocal_skipExponent _ s hmem'
    simp only [Option.map_some, hfraction, hexponent, List.length_append, Nat.add_right_cancel_iff]
    split <;> rfl

end SourceTidy.Json
