import SourceTidy.Json.Document

/-!
# The grammar of JSON

A document is a value between blanks (`IsDocument`), and values are what the productions of the grammar derive (`Derives`).
The same documents can be told from left to right, one lexeme after the other, by the containers that are open and by what may
come next (`Leads`). The two agree (`isDocument_iff_leads`): the first says what JSON is, and the second is near to how it is
read.
-/

namespace SourceTidy.Json

/-- A text of blanks. -/
def AllBlank (t : Text) : Prop := ∀ c ∈ t, isBlank c = true

theorem allBlank_nil : AllBlank [] := fun _ hc => absurd hc List.not_mem_nil

theorem AllBlank.append {s t : Text} (hs : AllBlank s) (ht : AllBlank t) : AllBlank (s ++ t) := by
  intro c hc
  rcases List.mem_append.1 hc with hc | hc
  · exact hs c hc
  · exact ht c hc

/-! ## Lexemes -/

/-- The quote around a string. -/
abbrev quote : CodePoint := '"'

/-- What separates items. -/
abbrev comma : CodePoint := ','

/-- What separates a name from its value. -/
abbrev colon : CodePoint := ':'

/-- The digit zero. -/
abbrev zero : CodePoint := '0'

/-- The sign of what is positive. -/
abbrev plus : CodePoint := '+'

/-- The sign of what is negative. -/
abbrev minus : CodePoint := '-'

/-- What may stand between the quotes of a string. -/
inductive Inside : Text → Prop where
  | nil : Inside []
  | plain {c : CodePoint} {rest : Text} (hquote : c ≠ '"') (hbackslash : c ≠ '\\') (hcontrol : ¬ c.toNat < 0x20)
    (tail : Inside rest) : Inside (c :: rest)
  | escape {c : CodePoint} {rest : Text} (hc : isSimpleEscape c = true) (tail : Inside rest) : Inside ('\\' :: c :: rest)
  | unicode {a b c d : CodePoint} {rest : Text} (ha : a.isHexDigit = true) (hb : b.isHexDigit = true)
    (hc : c.isHexDigit = true) (hd : d.isHexDigit = true) (tail : Inside rest) :
    Inside ('\\' :: 'u' :: a :: b :: c :: d :: rest)

/-- A string, with its quotes. -/
def IsString (t : Text) : Prop := ∃ i, Inside i ∧ t = quote :: (i ++ [quote])

/-- A digit, and maybe more. -/
structure IsDigits (t : Text) : Prop where
  ne_nil : t ≠ []
  isDigit : ∀ c ∈ t, c.isAsciiDigit = true

/-- Digits of which the first is no zero, or a single zero. -/
structure IsNatural (t : Text) : Prop extends IsDigits t where
  eq_zero : ∀ rest, t = zero :: rest → rest = []

/-- A minus, or nothing. -/
inductive IsSign : Text → Prop where
  | plus : IsSign []
  | minus : IsSign [minus]

/-- A fraction, or nothing. -/
inductive IsFraction : Text → Prop where
  | none : IsFraction []
  | some {digits : Text} (h : IsDigits digits) : IsFraction ('.' :: digits)

/-- An exponent, or nothing. -/
inductive IsExponent : Text → Prop where
  | none : IsExponent []
  | some {letter : CodePoint} {sign digits : Text} (hletter : letter = 'e' ∨ letter = 'E')
    (hsign : sign = [] ∨ sign = [plus] ∨ sign = [minus]) (h : IsDigits digits) : IsExponent (letter :: (sign ++ digits))

/-- A number. -/
inductive IsNumber : Text → Prop where
  | parts {sign digits fraction exponent : Text} (hsign : IsSign sign) (hdigits : IsNatural digits)
    (hfraction : IsFraction fraction) (hexponent : IsExponent exponent) :
    IsNumber (sign ++ (digits ++ (fraction ++ exponent)))

/-- A value that is no container. -/
inductive IsScalar : Text → Prop where
  | word {t : Text} (h : t ∈ words) : IsScalar t
  | string {t : Text} (h : IsString t) : IsScalar t
  | number {t : Text} (h : IsNumber t) : IsScalar t

/-! ## Productions -/

namespace Container

/-- What opens a container. -/
def opening : Container → CodePoint
  | array => '['
  | object => '\x7b'

/-- What closes a container. -/
def closing : Container → CodePoint
  | array => ']'
  | object => '\x7d'

end Container

/-- What the grammar derives texts from: values, the items of containers, which are elements or members, and several of them
between commas. -/
inductive Symbol where
  | value
  | item (k : Container)
  | items (k : Container)

/-- The texts that the grammar derives from a symbol. -/
inductive Derives : Symbol → Text → Prop where
  | scalar {v : Text} (h : IsScalar v) : Derives .value v
  | empty (k : Container) {b : Text} (hb : AllBlank b) : Derives .value (k.opening :: (b ++ [k.closing]))
  | container (k : Container) {is : Text} (h : Derives (.items k) is) : Derives .value (k.opening :: (is ++ [k.closing]))
  | element {b b' v : Text} (hb : AllBlank b) (h : Derives .value v) (hb' : AllBlank b') :
    Derives (.item .array) (b ++ (v ++ b'))
  | member {b₁ b₂ b₃ b₄ n v : Text} (hb₁ : AllBlank b₁) (hn : IsString n) (hb₂ : AllBlank b₂) (hb₃ : AllBlank b₃)
    (h : Derives .value v) (hb₄ : AllBlank b₄) :
    Derives (.item .object) (b₁ ++ (n ++ (b₂ ++ colon :: (b₃ ++ (v ++ b₄)))))
  | one {k : Container} {i : Text} (h : Derives (.item k) i) : Derives (.items k) i
  | more {k : Container} {is i : Text} (h : Derives (.items k) is) (h' : Derives (.item k) i) :
    Derives (.items k) (is ++ comma :: i)

/-- A text of JSON: a value between blanks. -/
def IsDocument (t : Text) : Prop := ∃ b v b', AllBlank b ∧ Derives .value v ∧ AllBlank b' ∧ t = b ++ (v ++ b')

/-! ## From left to right -/

/-- What may come next. -/
inductive Place where
  /-- A value. -/
  | value
  /-- The first item of a container, or its end. -/
  | first
  /-- The name of a member. -/
  | name
  | colon
  /-- A comma or the end of a container, and the end of the text if no container is open. -/
  | after
  deriving DecidableEq

/-- What comes behind a comma. -/
def Container.next : Container → Place
  | array => .value
  | object => .name

/-- A value may come next. -/
def AllowsValue (place : Place) (opened : List Container) : Prop :=
  place = .value ∨ place = .first ∧ opened.head? = some .array

/-- The name of a member may come next. -/
def AllowsName (place : Place) (opened : List Container) : Prop :=
  place = .name ∨ place = .first ∧ opened.head? = some .object

theorem AllowsValue.ne_after {place : Place} {opened : List Container} (h : AllowsValue place opened) : place ≠ .after := by
  rintro rfl
  rcases h with h | ⟨h, -⟩ <;> cases h

theorem AllowsName.ne_after {place : Place} {opened : List Container} (h : AllowsName place opened) : place ≠ .after := by
  rintro rfl
  rcases h with h | ⟨h, -⟩ <;> cases h

/-- `Takes place opened x place' opened'`: where the containers `opened` are open and `place` is what may come next, the
lexeme `x` may come, and what comes after it is `place'` with `opened'` open. -/
inductive Takes : Place → List Container → Text → Place → List Container → Prop where
  | scalar {place : Place} {opened : List Container} {v : Text} (hplace : AllowsValue place opened) (hv : IsScalar v) :
    Takes place opened v .after opened
  | opens {place : Place} {opened : List Container} (k : Container) (hplace : AllowsValue place opened) :
    Takes place opened [k.opening] .first (k :: opened)
  | closes {place : Place} {opened : List Container} (k : Container) (hplace : place = .first ∨ place = .after) :
    Takes place (k :: opened) [k.closing] .after opened
  | comma {opened : List Container} (k : Container) : Takes .after (k :: opened) [comma] k.next (k :: opened)
  | name {place : Place} {opened : List Container} {n : Text} (hplace : AllowsName place opened) (hn : IsString n) :
    Takes place opened n .colon opened
  | colon {opened : List Container} : Takes .colon opened [colon] .value opened

/-- `Leads p place opened`: a text that starts with `p` is so far one of JSON, the containers `opened` are open behind `p`,
and `place` is what may come next. -/
inductive Leads : Text → Place → List Container → Prop where
  | start : Leads [] .value []
  | step {p b x : Text} {place place' : Place} {opened opened' : List Container} (h : Leads p place opened) (hb : AllBlank b)
    (hx : Takes place opened x place' opened') : Leads (p ++ (b ++ x)) place' opened'

/-! ## What is derived can be told from left to right -/

variable {p q t : Text} {place : Place} {opened below : List Container} {k : Container}

/-- Behind `p`, a value or items can be told from left to right. -/
def Symbol.Continues : Symbol → Text → Prop
  | .value, t => ∀ p place opened b, Leads p place opened → AllowsValue place opened → AllBlank b →
    Leads (p ++ (b ++ t)) .after opened
  | .item k, t => ∀ p place opened, Leads p place (k :: opened) → place = .first ∨ place = k.next →
    ∃ q b, Leads q .after (k :: opened) ∧ AllBlank b ∧ p ++ t = q ++ b
  | .items k, t => ∀ p opened, Leads p .first (k :: opened) →
    ∃ q b, Leads q .after (k :: opened) ∧ AllBlank b ∧ p ++ t = q ++ b

theorem continues_of_derives {s : Symbol} (h : Derives s t) : s.Continues t := by
  induction h with
  | scalar hv =>
    intro p place opened b hp hplace hb
    exact hp.step hb (.scalar hplace hv)
  | empty k hb' =>
    intro p place opened b hp hplace hb
    have hclosed := (hp.step hb (.opens k hplace)).step hb' (.closes k (.inl rfl))
    simpa only [List.append_assoc, List.cons_append, List.nil_append] using hclosed
  | @container k is _ ih =>
    intro p place opened b hp hplace hb
    obtain ⟨q, b', hq, hb', heq⟩ := ih _ _ (hp.step hb (.opens k hplace))
    have hclosed := hq.step hb' (.closes k (.inr rfl))
    rw [← List.append_assoc, ← heq] at hclosed
    simpa only [List.append_assoc, List.cons_append, List.nil_append] using hclosed
  | @element b b' v hb _ hb' ih =>
    intro p place opened hp hplace
    have hvalue : AllowsValue place (.array :: opened) := hplace.elim (fun h => .inr ⟨h, rfl⟩) .inl
    exact ⟨p ++ (b ++ v), b', ih p place _ b hp hvalue hb, hb', by simp only [List.append_assoc]⟩
  | @member b₁ b₂ b₃ b₄ n v hb₁ hn hb₂ hb₃ _ hb₄ ih =>
    intro p place opened hp hplace
    have hname : AllowsName place (.object :: opened) := hplace.elim (fun h => .inr ⟨h, rfl⟩) .inl
    have hcolon := (hp.step hb₁ (.name hname hn)).step hb₂ .colon
    refine ⟨_, b₄, ih _ _ _ b₃ hcolon (.inl rfl) hb₃, hb₄, ?_⟩
    simp only [List.append_assoc, List.cons_append, List.nil_append]
  | one _ ih =>
    intro p opened hp
    exact ih p _ opened hp (.inl rfl)
  | @more k is i _ _ ihs ihi =>
    intro p opened hp
    obtain ⟨q, b, hq, hb, heq⟩ := ihs p opened hp
    obtain ⟨q', b', hq', hb', heq'⟩ := ihi _ _ _ (hq.step hb (.comma k)) (.inr rfl)
    refine ⟨q', b', hq', hb', ?_⟩
    rw [← heq', ← List.append_assoc, heq]
    simp only [List.append_assoc, List.cons_append, List.nil_append]

/-! ## What is told from left to right is derived -/

/-- Items of a container with a comma behind each of them. -/
inductive Items (k : Container) : Text → Prop where
  | nil : Items k []
  | comma {is : Text} (h : Derives (.items k) is) : Items k (is ++ [comma])

/-- What stands before the value of an item: the name of a member with its colon. -/
inductive Label : Container → Text → Prop where
  | element : Label .array []
  | member {b n b' : Text} (hb : AllBlank b) (hn : IsString n) (hb' : AllBlank b') :
    Label .object (b ++ (n ++ (b' ++ [colon])))

theorem Label.item {l b v b' : Text} (hl : Label k l) (hb : AllBlank b) (hv : Derives .value v) (hb' : AllBlank b') :
    Derives (.item k) (l ++ (b ++ (v ++ b'))) := by
  cases hl with
  | element =>
    rw [List.nil_append]
    exact .element hb hv hb'
  | member hb₁ hn hb₂ =>
    simpa only [List.append_assoc, List.cons_append, List.nil_append] using Derives.member hb₁ hn hb₂ hb hv hb'

theorem Items.append {is i : Text} (his : Items k is) (hi : Derives (.item k) i) : Derives (.items k) (is ++ i) := by
  cases his with
  | nil => exact .one hi
  | comma h => simpa only [List.append_assoc, List.cons_append, List.nil_append] using Derives.more h hi

/-- A text behind which a value comes: that of the innermost container that is open, or the value of the document. -/
def Before : List Container → Text → Prop
  | [], p => p = []
  | k :: below, p => ∃ q b is l, Before below q ∧ AllBlank b ∧ Items k is ∧ Label k l ∧ p = q ++ (b ++ k.opening :: (is ++ l))

/-- A text behind which the items of a container go on. -/
def Within (k : Container) (below : List Container) (p : Text) : Prop :=
  ∃ q b is, Before below q ∧ AllBlank b ∧ Items k is ∧ p = q ++ (b ++ k.opening :: is)

/-- What has been derived of a text. -/
def Derived : Place → List Container → Text → Prop
  | .value, opened, p => Before opened p
  | .first, opened, p => ∃ k below q b, opened = k :: below ∧ Before below q ∧ AllBlank b ∧ p = q ++ (b ++ [k.opening])
  | .name, opened, p => ∃ below, opened = .object :: below ∧ Within .object below p
  | .colon, opened, p => ∃ below q b n, opened = .object :: below ∧ Within .object below q ∧ AllBlank b ∧ IsString n ∧
    p = q ++ (b ++ n)
  | .after, opened, p => ∃ q b v, Before opened q ∧ AllBlank b ∧ Derives .value v ∧ p = q ++ (b ++ v)

theorem within_first {b : Text} (hq : Before below q) (hb : AllBlank b) : Within k below (q ++ (b ++ [k.opening])) :=
  ⟨q, b, [], hq, hb, .nil, rfl⟩

theorem Within.label {l : Text} (h : Within k below p) (hl : Label k l) : Before (k :: below) (p ++ l) := by
  obtain ⟨q, b, is, hq, hb, his, rfl⟩ := h
  exact ⟨q, b, is, l, hq, hb, his, hl, by simp only [List.append_assoc, List.cons_append]⟩

/-- A comma behind a value makes it an item. -/
theorem within_comma {b b' v : Text} (h : Before (k :: below) p) (hb : AllBlank b) (hv : Derives .value v)
    (hb' : AllBlank b') : Within k below (p ++ (b ++ v) ++ (b' ++ [comma])) := by
  obtain ⟨q, b₁, is, l, hq, hb₁, his, hl, rfl⟩ := h
  refine ⟨q, b₁, _, hq, hb₁, .comma (his.append (hl.item hb hv hb')), ?_⟩
  simp only [List.append_assoc, List.cons_append]

/-- The end of a container behind a value makes a value of it all. -/
theorem derived_close {b b' v : Text} (h : Before (k :: below) p) (hb : AllBlank b) (hv : Derives .value v)
    (hb' : AllBlank b') : Derived .after below (p ++ (b ++ v) ++ (b' ++ [k.closing])) := by
  obtain ⟨q, b₁, is, l, hq, hb₁, his, hl, rfl⟩ := h
  refine ⟨q, b₁, _, hq, hb₁, .container k (his.append (hl.item hb hv hb')), ?_⟩
  simp only [List.append_assoc, List.cons_append]

theorem Derived.before (h : Derived place opened p) (hplace : AllowsValue place opened) : Before opened p := by
  rcases hplace with rfl | ⟨rfl, hhead⟩
  · exact h
  · obtain ⟨k, below, q, b, rfl, hq, hb, rfl⟩ := h
    obtain rfl := Option.some.inj hhead
    simpa only [List.append_nil] using (within_first hq hb).label .element

theorem Derived.within (h : Derived place opened p) (hplace : AllowsName place opened) :
    ∃ below, opened = .object :: below ∧ Within .object below p := by
  rcases hplace with rfl | ⟨rfl, hhead⟩
  · exact h
  · obtain ⟨k, below, q, b, rfl, hq, hb, rfl⟩ := h
    obtain rfl := Option.some.inj hhead
    exact ⟨below, rfl, within_first hq hb⟩

theorem Leads.derived (h : Leads p place opened) : Derived place opened p := by
  induction h with
  | start => rfl
  | @step p b x place place' opened opened' _ hb hx ih =>
    cases hx with
    | scalar hplace hv => exact ⟨p, b, x, ih.before hplace, hb, .scalar hv, rfl⟩
    | opens k hplace => exact ⟨k, opened, p, b, rfl, ih.before hplace, hb, rfl⟩
    | @closes _ below k hplace =>
      rcases hplace with rfl | rfl
      · obtain ⟨k', below', q, b', heq, hq, hb', rfl⟩ := ih
        obtain ⟨rfl, rfl⟩ := List.cons.inj heq
        exact ⟨q, b', _, hq, hb', .empty k hb, by simp only [List.append_assoc, List.cons_append, List.nil_append]⟩
      · obtain ⟨q, b', v, hq, hb', hv, rfl⟩ := ih
        exact derived_close hq hb' hv hb
    | @comma below k =>
      obtain ⟨q, b', v, hq, hb', hv, rfl⟩ := ih
      have hwithin := within_comma hq hb' hv hb
      cases k with
      | array =>
        change Before (.array :: below) _
        simpa only [List.append_nil] using hwithin.label .element
      | object => exact ⟨below, rfl, hwithin⟩
    | name hplace hn =>
      obtain ⟨below, rfl, hwithin⟩ := ih.within hplace
      exact ⟨below, p, b, x, rfl, hwithin, hb, hn, rfl⟩
    | colon =>
      obtain ⟨below, q, b', n, rfl, hwithin, hb', hn, rfl⟩ := ih
      change Before (.object :: below) _
      simpa only [List.append_assoc] using hwithin.label (.member hb' hn hb)

/-- A document is what can be told from left to right until no container is open and a value is behind. -/
theorem isDocument_iff_leads : IsDocument t ↔ ∃ p b, Leads p .after [] ∧ AllBlank b ∧ t = p ++ b := by
  constructor
  · rintro ⟨b, v, b', hb, hv, hb', rfl⟩
    refine ⟨b ++ v, b', ?_, hb', by rw [List.append_assoc]⟩
    exact continues_of_derives hv [] .value [] b .start (.inl rfl) hb
  · rintro ⟨p, b, hp, hb, rfl⟩
    obtain ⟨q, b', v, rfl, hb', hv, rfl⟩ := hp.derived
    exact ⟨b', v, b, hb', hv, hb, by rw [List.nil_append, List.append_assoc]⟩

/-! ## What can become a document -/

/-- A text that begins a document. -/
def Viable (p : Text) : Prop := ∃ s, IsDocument (p ++ s)

theorem Viable.of_append {s : Text} (h : Viable (p ++ s)) : Viable p := by
  obtain ⟨r, hr⟩ := h
  exact ⟨s ++ r, by rwa [← List.append_assoc]⟩

theorem viable_of_leads_after (h : Leads p .after opened) : Viable p := by
  induction opened generalizing p with
  | nil => exact ⟨[], isDocument_iff_leads.2 ⟨p, [], h, allBlank_nil, rfl⟩⟩
  | cons k below ih => exact (ih (h.step allBlank_nil (.closes k (.inr rfl)))).of_append

theorem isNatural_zero : IsNatural [zero] := ⟨⟨by decide, by decide⟩, fun _ h => (List.cons.inj h).2.symm⟩

theorem isScalar_zero : IsScalar [zero] := .number (.parts .plus isNatural_zero .none .none)

theorem isString_empty : IsString [quote, quote] := ⟨[], .nil, rfl⟩

theorem viable_of_leads_value {b : Text} (h : Leads p place opened) (hplace : AllowsValue place opened) (hb : AllBlank b) :
    Viable (p ++ b) := by
  have := viable_of_leads_after (h.step hb (.scalar hplace isScalar_zero))
  rw [← List.append_assoc] at this
  exact this.of_append

theorem viable_of_leads_name {b : Text} (h : Leads p place opened) (hplace : AllowsName place opened) (hb : AllBlank b) :
    Viable (p ++ b) := by
  have hcolon := (h.step hb (.name hplace isString_empty)).step allBlank_nil .colon
  have hvalue := viable_of_leads_value hcolon (.inl rfl) allBlank_nil
  rw [List.append_nil] at hvalue
  have := hvalue.of_append
  rw [← List.append_assoc] at this
  exact this.of_append

/-- Some container is open where its first item may come. -/
theorem Leads.exists_container (h : Leads p .first opened) : ∃ k below, opened = k :: below := by
  obtain ⟨k, below, -, -, rfl, -⟩ := h.derived
  exact ⟨k, below, rfl⟩

/-- What has been told from left to right, blanks behind it included, can become a document. -/
theorem Leads.viable {b : Text} (h : Leads p place opened) (hb : AllBlank b) : Viable (p ++ b) := by
  cases place with
  | value => exact viable_of_leads_value h (.inl rfl) hb
  | first =>
    obtain ⟨k, below, rfl⟩ := h.exists_container
    cases k with
    | array => exact viable_of_leads_value h (.inr ⟨rfl, rfl⟩) hb
    | object => exact viable_of_leads_name h (.inr ⟨rfl, rfl⟩) hb
  | name => exact viable_of_leads_name h (.inl rfl) hb
  | colon =>
    have := viable_of_leads_value (h.step hb .colon) (.inl rfl) allBlank_nil
    rw [List.append_nil, ← List.append_assoc] at this
    exact this.of_append
  | after =>
    cases opened with
    | nil => exact ⟨[], isDocument_iff_leads.2 ⟨p, b, h, hb, List.append_nil _⟩⟩
    | cons k below =>
      have := viable_of_leads_after (h.step hb (.closes k (.inr rfl)))
      rw [← List.append_assoc] at this
      exact this.of_append

end SourceTidy.Json
