import SourceTidy.Proofs.Config.Layers

/-!
# Extended lists of patterns

A key that extends a list is folded into the list before the list is checked, so what is checked are the items of two values and
not the values. `ofValue_eq_ok_iff` says from which tables discovery settings are read, and which: whatever holds texts can stand
for the list that is extended, and for what extends it. What the check of a plain list would refuse can pass that way;
`extensions_keep_validation_iff` says exactly when it does.
-/

namespace SourceTidy.Config

/-! ## Lists that are read -/

/-- Whether the items of a value are some texts: those of an array, the characters of a text, the keys of a table. -/
inductive Spreads : Value → List Text → Prop where
  | array (ts : List Text) : Spreads (texts ts) ts
  | text (t : Text) : Spreads (.text t) (t.map fun c => [c])
  | table (f : Fields) : Spreads (.table f) f.keys

/-- Whether a value adds some texts to the list that it extends: none if it counts as nothing, itself if it is a text, and else
its items. -/
inductive Adds : Value → List Text → Prop where
  | nothing {v : Value} (hv : v.isTruthy = false) : Adds v []
  | single {t : Text} (ht : t ≠ []) : Adds (.text t) [t]
  | items {v : Value} {ts : List Text} (hv : v.isTruthy = true) (htext : ∀ t, v ≠ .text t) (hts : Spreads v ts) : Adds v ts

/-- Whether a table gives a list at a name, or has nothing there and the list is the default. -/
def IsGiven (d : Fields) (name : Text) (default ts : List Text) : Prop :=
  match d.get? name with
  | none => ts = default
  | some v => v = texts ts

/-- Whether a table has items at a name, or has nothing there and they are the default. -/
def IsSpread (d : Fields) (name : Text) (default ts : List Text) : Prop :=
  match d.get? name with
  | none => ts = default
  | some v => v = .null ∧ ts = default ∨ Spreads v ts

/-- Whether a list is read from a table for a name: the one that is given, if nothing extends it, and else the items that stand
there with what the extension adds. -/
def IsRead (d : Fields) (name : Text) (default ts : List Text) : Prop :=
  match d.get? (Text.ofString "extend_" ++ name) with
  | none => IsGiven d name default ts
  | some v => ∃ base extras, IsSpread d name default base ∧ Adds v extras ∧ ts = base ++ extras

/-! ## What is read -/

theorem map_text_inj {ts us : List Text} : ts.map Value.text = us.map Value.text ↔ ts = us :=
  (List.map_injective_iff.2 fun _ _ h => Value.text.inj h).eq_iff

theorem setting_eq_ok_iff {c : Checks} (hc : c.Lawful) (d : Fields) (name : Text) (default ts : List Text) :
    setting d name c.textsOf default = .ok ts ↔ IsGiven d name default ts := by
  unfold setting IsGiven
  cases d.get? name with
  | none => simp [eq_comm]
  | some v => exact Except.mapError_eq_ok_iff.trans (hc.textsOf_eq_ok_iff v ts)

theorem itemsOf_eq_ok_iff (v : Value) (ts : List Text) : itemsOf v = .ok (ts.map .text) ↔ Spreads v ts := by
  constructor
  · intro h
    cases v with
    | array vs =>
      cases h
      exact .array ts
    | text t =>
      have hts : ts = t.map fun c => [c] := by
        rw [← map_text_inj, List.map_map]
        exact (Except.ok.inj h).symm
      exact hts ▸ .text t
    | table f =>
      have hts : ts = Fields.keys f := by
        rw [← map_text_inj, Fields.keys, List.map_map]
        exact (Except.ok.inj h).symm
      exact hts ▸ .table f
    | _ => cases h
  · intro h
    cases h with
    | array => rfl
    | text t => simp [itemsOf]
    | table f => simp [itemsOf, Fields.keys]

theorem isTruthy_text_iff (t : Text) : (Value.text t).isTruthy = true ↔ t ≠ [] := by
  simp [Value.isTruthy]

theorem extension_eq_ok_iff (v : Value) (ts : List Text) : extension v = .ok (ts.map .text) ↔ Adds v ts := by
  constructor
  · intro h
    unfold extension at h
    split at h
    · rename_i hv
      rw [← List.map_nil (f := Value.text), Except.ok.injEq, map_text_inj] at h
      exact h ▸ .nothing (by simpa using hv)
    · rename_i hv
      have hv : v.isTruthy = true := by simpa using hv
      cases v with
      | text t =>
        have hts : [t] = ts := map_text_inj.1 (Except.ok.inj h)
        exact hts ▸ .single ((isTruthy_text_iff t).1 hv)
      | _ => exact .items hv nofun ((itemsOf_eq_ok_iff _ ts).1 h)
  · intro h
    unfold extension
    cases h with
    | nothing hv => simp [hv]
    | single ht => simp [(isTruthy_text_iff _).2 ht]
    | items hv htext hts =>
      rw [if_neg (by simp [hv]), ← (itemsOf_eq_ok_iff v ts).2 hts]
      cases hts with
      | text t => exact absurd rfl (htext t)
      | _ => rfl

theorem extended_eq_ok_iff (d : Fields) (name : Text) (default ts : List Text) :
    extended d name default = .ok (ts.map .text) ↔ IsSpread d name default ts := by
  unfold extended IsSpread
  cases d.get? name with
  | none => simp [map_text_inj, eq_comm]
  | some v =>
    cases v with
    | null =>
      have hnone : ¬ Spreads .null ts := nofun
      simp [map_text_inj, hnone, eq_comm]
    | _ => simp [itemsOf_eq_ok_iff]

variable {c : Checks} {d d' : Fields} {name : Text} {default : List Text}

theorem foldExtension_of_none (h : d.get? (Text.ofString "extend_" ++ name) = none) : foldExtension name default d = .ok d := by
  simp only [foldExtension, h]

theorem foldExtension_of_some {v : Value} (h : d.get? (Text.ofString "extend_" ++ name) = some v) :
    foldExtension name default d = do
      let base ← extended d name default
      let extras ← extension v
      return (d.erase (Text.ofString "extend_" ++ name)).put name (.array (base ++ extras)) := by
  simp only [foldExtension, h]

/-- What is read for a name after its extension has been folded in. -/
theorem isGiven_of_foldExtension (h : foldExtension name default d = .ok d') (ts : List Text) :
    IsGiven d' name default ts ↔ IsRead d name default ts := by
  unfold IsRead
  cases hextending : d.get? (Text.ofString "extend_" ++ name) with
  | none =>
    rw [foldExtension_of_none hextending] at h
    cases h
    rfl
  | some v =>
    rw [foldExtension_of_some hextending] at h
    obtain ⟨base, hbase, h⟩ := Except.bind_eq_ok_iff.1 h
    obtain ⟨extras, hextras, h⟩ := Except.bind_eq_ok_iff.1 h
    cases h
    rw [IsGiven, Fields.get?_put, if_pos rfl]
    simp only [texts, Value.array.injEq, List.append_eq_map_iff]
    constructor
    · rintro ⟨bs, es, rfl, rfl, rfl⟩
      exact ⟨bs, es, (extended_eq_ok_iff d name default bs).1 hbase, (extension_eq_ok_iff v es).1 hextras, rfl⟩
    · rintro ⟨bs, es, hbs, hes, rfl⟩
      have hbs := hbase.symm.trans ((extended_eq_ok_iff d name default bs).2 hbs)
      have hes := hextras.symm.trans ((extension_eq_ok_iff v es).2 hes)
      exact ⟨bs, es, rfl, (Except.ok.inj hbs).symm, (Except.ok.inj hes).symm⟩

theorem IsRead.exists_foldExtension {ts : List Text} (h : IsRead d name default ts) :
    ∃ d', foldExtension name default d = .ok d' := by
  unfold IsRead at h
  cases hextending : d.get? (Text.ofString "extend_" ++ name) with
  | none => exact ⟨d, foldExtension_of_none hextending⟩
  | some v =>
    simp only [hextending] at h
    obtain ⟨bs, es, hbs, hes, -⟩ := h
    have hbase := (extended_eq_ok_iff d name default bs).2 hbs
    have hextras := (extension_eq_ok_iff v es).2 hes
    rw [foldExtension_of_some hextending]
    exact ⟨_, Except.bind_eq_ok_iff.2 ⟨_, hbase, Except.bind_eq_ok_iff.2 ⟨_, hextras, rfl⟩⟩⟩

/-- Once an extension has been folded in, no key extends the list. -/
theorem get?_extending_of_foldExtension (h : foldExtension name default d = .ok d') :
    d'.get? (Text.ofString "extend_" ++ name) = none := by
  have hname : Text.ofString "extend_" ++ name ≠ name := fun heq => absurd (List.append_left_eq_self.1 heq) (by decide)
  cases hextending : d.get? (Text.ofString "extend_" ++ name) with
  | none =>
    rw [foldExtension_of_none hextending] at h
    cases h
    exact hextending
  | some v =>
    rw [foldExtension_of_some hextending] at h
    obtain ⟨base, -, h⟩ := Except.bind_eq_ok_iff.1 h
    obtain ⟨extras, -, h⟩ := Except.bind_eq_ok_iff.1 h
    cases h
    rw [Fields.get?_put, if_neg hname, Fields.get?_erase, if_pos rfl]

theorem IsGiven.congr {d d' : Fields} {name : Text} (h : d'.get? name = d.get? name) (default ts : List Text) :
    IsGiven d' name default ts ↔ IsGiven d name default ts := by
  rw [IsGiven, IsGiven, h]

theorem IsRead.congr {d d' : Fields} {name : Text} (h : d'.get? name = d.get? name)
    (hextending : d'.get? (Text.ofString "extend_" ++ name) = d.get? (Text.ofString "extend_" ++ name)) (default ts : List Text) :
    IsRead d' name default ts ↔ IsRead d name default ts := by
  unfold IsRead
  simp only [hextending, IsSpread, IsGiven, h]

/-- The discovery settings of a table without keys that extend a list. -/
theorem ofPlain_eq_ok_iff (hc : c.Lawful) (d : Fields) (s : Discovery) :
    Discovery.ofPlain c (.table d) = .ok s ↔
      IsGiven d "accept" defaultAccept s.accept ∧ IsGiven d "ignore" defaultIgnore s.ignore ∧
      ∀ key, key ∉ [Text.ofString "accept", "ignore"] → d.get? key = none := by
  obtain ⟨accept, ignore⟩ := s
  rw [← setting_eq_ok_iff hc, ← setting_eq_ok_iff hc]
  simp only [Discovery.ofPlain, hc.group_eq_ok_iff, List.append_eq_nil_iff]
  cases setting d "accept" c.textsOf defaultAccept with
  | error cs => simp [Except.toOption]
  | ok as =>
    cases setting d "ignore" c.textsOf defaultIgnore with
    | error cs => simp [Except.toOption]
    | ok is =>
      simp [Except.toOption, complaints]
      tauto

/-- The tables that discovery settings are read from in turn. -/
theorem ofValue_eq_ok_iff_exists (c : Checks) (d : Fields) (r : Checked Discovery) :
    Discovery.ofValue c (.table d) = .ok r ↔
      ∃ d₁ d₂, foldExtension "accept" defaultAccept d = .ok d₁ ∧
        foldExtension "ignore" defaultIgnore d₁ = .ok d₂ ∧ Discovery.ofPlain c (.table d₂) = r := by
  refine Except.map_eq_ok_iff.trans ?_
  simp only [foldExtensions, Except.bind_eq_ok_iff]
  constructor
  · rintro ⟨v, ⟨d₁, h₁, d₂, h₂, hv⟩, hr⟩
    cases hv
    exact ⟨d₁, d₂, h₁, h₂, hr⟩
  · rintro ⟨d₁, d₂, h₁, h₂, hr⟩
    exact ⟨.table d₂, ⟨d₁, h₁, d₂, h₂, rfl⟩, hr⟩

/-- A table into which both extensions have been folded has no other keys than the two lists exactly when there was no key that
is not known. -/
theorem unknown_of_foldExtension {d d₁ d₂ : Fields} (h₁ : foldExtension "accept" defaultAccept d = .ok d₁)
    (h₂ : foldExtension "ignore" defaultIgnore d₁ = .ok d₂) :
    (∀ key, key ∉ [Text.ofString "accept", "ignore"] → d₂.get? key = none) ↔
      ∀ key, key ∉ patternKeys → d.get? key = none := by
  have hextendAccept : d₂.get? (Text.ofString "extend_accept") = none :=
    (get?_of_foldExtension h₂ _ (by decide) (by decide)).trans (get?_extending_of_foldExtension h₁)
  have hextendIgnore : d₂.get? (Text.ofString "extend_ignore") = none := get?_extending_of_foldExtension h₂
  have hother (key : Text) (hkey : key ∉ patternKeys) : d₂.get? key = d.get? key := by
    simp only [patternKeys, List.mem_cons, List.not_mem_nil, or_false, not_or] at hkey
    obtain ⟨haccept, hextendAccept, hignore, hextendIgnore⟩ := hkey
    rw [get?_of_foldExtension h₂ key hignore hextendIgnore, get?_of_foldExtension h₁ key haccept hextendAccept]
  constructor
  · intro h key hkey
    rw [← hother key hkey]
    refine h key fun hmem => hkey ?_
    simp only [List.mem_cons, List.not_mem_nil, or_false] at hmem
    rcases hmem with rfl | rfl <;> decide
  · intro h key hkey
    by_cases hknown : key ∈ patternKeys
    · simp only [patternKeys, List.mem_cons, List.not_mem_nil, or_false] at hknown hkey
      rcases hknown with rfl | rfl | rfl | rfl
      · exact absurd (.inl rfl) hkey
      · exact hextendAccept
      · exact absurd (.inr rfl) hkey
      · exact hextendIgnore
    · rw [hother key hknown, h key hknown]

/-- From which tables discovery settings are read, and which: both lists are read, and there is no key that is not known. -/
theorem ofValue_eq_ok_iff (hc : c.Lawful) (d : Fields) (s : Discovery) :
    Discovery.ofValue c (.table d) = .ok (.ok s) ↔
      IsRead d "accept" defaultAccept s.accept ∧ IsRead d "ignore" defaultIgnore s.ignore ∧
      ∀ key, key ∉ patternKeys → d.get? key = none := by
  have hread {d₁ d₂ : Fields} (h₁ : foldExtension "accept" defaultAccept d = .ok d₁)
      (h₂ : foldExtension "ignore" defaultIgnore d₁ = .ok d₂) :
      Discovery.ofPlain c (.table d₂) = .ok s ↔
        IsRead d "accept" defaultAccept s.accept ∧ IsRead d "ignore" defaultIgnore s.ignore ∧
        ∀ key, key ∉ patternKeys → d.get? key = none := by
    rw [ofPlain_eq_ok_iff hc, unknown_of_foldExtension h₁ h₂, ← isGiven_of_foldExtension h₁,
      IsGiven.congr (get?_of_foldExtension h₂ "accept" (by decide) (by decide)), isGiven_of_foldExtension h₂,
      IsRead.congr (get?_of_foldExtension h₁ "ignore" (by decide) (by decide))
        (get?_of_foldExtension h₁ _ (by decide) (by decide))]
  rw [ofValue_eq_ok_iff_exists]
  constructor
  · rintro ⟨d₁, d₂, h₁, h₂, h⟩
    exact (hread h₁ h₂).1 h
  · intro h
    obtain ⟨d₁, h₁⟩ := h.1.exists_foldExtension
    have hignore : IsRead d₁ "ignore" defaultIgnore s.ignore :=
      (IsRead.congr (get?_of_foldExtension h₁ "ignore" (by decide) (by decide))
        (get?_of_foldExtension h₁ _ (by decide) (by decide)) _ _).2 h.2.1
    obtain ⟨d₂, h₂⟩ := hignore.exists_foldExtension
    exact ⟨d₁, d₂, h₁, h₂, (hread h₁ h₂).2 h⟩

/-! ## Extensions and the check -/

/-- A table without the keys that extend lists. -/
def withoutExtensions (d : Fields) : Fields := (d.erase "extend_accept").erase "extend_ignore"

/-- Whether a value is a text or an array of texts, and these are the texts. -/
inductive IsExtension : Value → List Text → Prop where
  | single (t : Text) : IsExtension (.text t) [t]
  | list (ts : List Text) : IsExtension (texts ts) ts

/-- Whether nothing extends the list of a name, or a text or an array of texts does. -/
def IsExtended (d : Fields) (name : Text) (extras : List Text) : Prop :=
  match d.get? (Text.ofString "extend_" ++ name) with
  | none => extras = []
  | some v => IsExtension v extras

/-- Whether the lists that are read from a table are what it is to mean: without its extensions it is taken as well, with the
lists that it gives or the defaults, and the texts of the extensions follow them. -/
def Keeps (c : Checks) (d : Fields) (s : Discovery) : Prop :=
  ∃ base accept ignore, Discovery.ofValue c (.table (withoutExtensions d)) = .ok (.ok base) ∧
    IsGiven d "accept" defaultAccept base.accept ∧ IsGiven d "ignore" defaultIgnore base.ignore ∧
    IsExtended d "accept" accept ∧ IsExtended d "ignore" ignore ∧ s = ⟨base.accept ++ accept, base.ignore ++ ignore⟩

/-- Whether a table extends the list of a name by what is neither a text that is not empty nor an array of texts, or extends what
is no array. -/
def Loosens (d : Fields) (name : Text) : Prop :=
  ∃ v, d.get? (Text.ofString "extend_" ++ name) = some v ∧
    (v = .text [] ∨ (∀ ts, ¬ IsExtension v ts) ∨ ∃ b, d.get? name = some b ∧ ∀ vs, b ≠ .array vs)

theorem Spreads.eq_texts {vs : List Value} {ts : List Text} (h : Spreads (.array vs) ts) : Value.array vs = texts ts := by
  cases h
  rfl

theorem Spreads.eq_of_texts {ts us : List Text} (h : Spreads (texts ts) us) : us = ts :=
  (map_text_inj.1 (Value.array.inj h.eq_texts)).symm

/-- What a text that is not empty adds, or an array of texts, are its texts. -/
theorem IsExtension.eq_of_adds {v : Value} {ts us : List Text} (h : IsExtension v ts) (hv : v ≠ .text []) (hadds : Adds v us) :
    us = ts := by
  cases h with
  | single t =>
    have ht : t ≠ [] := fun ht => hv (congrArg Value.text ht)
    cases hadds with
    | nothing hfalse => exact absurd ((isTruthy_text_iff t).2 ht) (by simp [hfalse])
    | single => rfl
    | items _ htext => exact absurd rfl (htext t)
  | list =>
    cases hadds with
    | nothing hfalse =>
      cases ts with
      | nil => rfl
      | cons t ts => cases hfalse
    | items _ _ hspreads => exact hspreads.eq_of_texts

section

variable {d : Fields} {name : Text} {default : List Text}

theorem IsGiven.eq_of_isSpread {ts us : List Text} (h : IsGiven d name default ts) (hspread : IsSpread d name default us) :
    us = ts := by
  unfold IsGiven at h
  unfold IsSpread at hspread
  cases hget : d.get? name with
  | none =>
    simp only [hget] at h hspread
    exact hspread.trans h.symm
  | some v =>
    simp only [hget] at h hspread
    subst h
    rcases hspread with ⟨hnull, -⟩ | hspread
    · cases hnull
    · exact hspread.eq_of_texts

/-- Items that stand where there can only be an array are the texts of a list. -/
theorem IsSpread.isGiven {ts : List Text} (h : IsSpread d name default ts)
    (harray : ∀ v, d.get? name = some v → ∃ vs, v = .array vs) :
    IsGiven d name default ts := by
  unfold IsSpread at h
  unfold IsGiven
  cases hget : d.get? name with
  | none =>
    simp only [hget] at h
    exact h
  | some v =>
    simp only [hget] at h
    obtain ⟨vs, rfl⟩ := harray v hget
    rcases h with ⟨hnull, -⟩ | h
    · cases hnull
    · exact h.eq_texts

/-- A list that is read is the given one with the texts of its extension behind it, unless the extension loosens the check. -/
theorem IsRead.extended_iff {ts : List Text} (h : IsRead d name default ts) :
    (∃ base extras, IsGiven d name default base ∧ IsExtended d name extras ∧ ts = base ++ extras) ↔
      ¬ Loosens d name := by
  unfold IsRead at h
  unfold Loosens IsExtended
  cases hextending : d.get? (Text.ofString "extend_" ++ name) with
  | none =>
    simp only [hextending] at h
    exact iff_of_true ⟨ts, [], h, rfl, (List.append_nil ts).symm⟩ nofun
  | some v =>
    simp only [hextending] at h
    obtain ⟨base, extras, hbase, hextras, rfl⟩ := h
    simp only [Option.some.injEq, exists_eq_left']
    constructor
    · rintro ⟨given, added, hgiven, hadded, hsame⟩ (rfl | hneither | ⟨b, hb, hplain⟩)
      · -- an empty text would be a pattern of its own, and adds none
        rw [hgiven.eq_of_isSpread hbase, List.append_right_inj] at hsame
        subst hsame
        cases hadded
        cases hextras with
        | single ht => exact ht rfl
        | items _ htext => exact htext [] rfl
      · exact hneither added hadded
      · unfold IsGiven at hgiven
        simp only [hb] at hgiven
        exact hplain _ hgiven
    · intro hkeeps
      simp only [not_or, not_forall, not_not, not_exists, not_and] at hkeeps
      obtain ⟨hnonempty, ⟨us, hus⟩, harray⟩ := hkeeps
      have hsame := hus.eq_of_adds hnonempty hextras
      exact ⟨base, extras, hbase.isGiven harray, hsame ▸ hus, rfl⟩

end

theorem get?_withoutExtensions {d : Fields} {key : Text} (haccept : key ≠ Text.ofString "extend_accept")
    (hignore : key ≠ Text.ofString "extend_ignore") : (withoutExtensions d).get? key = d.get? key := by
  rw [withoutExtensions, Fields.get?_erase, if_neg hignore, Fields.get?_erase, if_neg haccept]

theorem get?_withoutExtensions_extending (d : Fields) :
    (withoutExtensions d).get? (Text.ofString "extend_accept") = none ∧
      (withoutExtensions d).get? (Text.ofString "extend_ignore") = none := by
  constructor
  · rw [withoutExtensions, Fields.get?_erase, if_neg (by decide), Fields.get?_erase, if_pos rfl]
  · rw [withoutExtensions, Fields.get?_erase, if_pos rfl]

theorem isRead_iff_isGiven {d : Fields} (name : Text) (h : d.get? (Text.ofString "extend_" ++ name) = none)
    (default ts : List Text) :
    IsRead d name default ts ↔ IsGiven d name default ts := by
  rw [IsRead, h]

/-- Which tables are taken without their extensions, and as what. -/
theorem ofValue_withoutExtensions_iff {c : Checks} (hc : c.Lawful) (d : Fields) (s : Discovery) :
    Discovery.ofValue c (.table (withoutExtensions d)) = .ok (.ok s) ↔
      IsGiven d "accept" defaultAccept s.accept ∧ IsGiven d "ignore" defaultIgnore s.ignore ∧
        ∀ key, key ∉ patternKeys → d.get? key = none := by
  obtain ⟨haccept, hignore⟩ := get?_withoutExtensions_extending d
  have hunknown : (∀ key, key ∉ patternKeys → (withoutExtensions d).get? key = none) ↔
      ∀ key, key ∉ patternKeys → d.get? key = none := by
    refine forall₂_congr fun key hkey => ?_
    simp only [patternKeys, List.mem_cons, List.not_mem_nil, or_false, not_or] at hkey
    rw [get?_withoutExtensions hkey.2.1 hkey.2.2.2]
  rw [ofValue_eq_ok_iff hc, isRead_iff_isGiven "accept" haccept, isRead_iff_isGiven "ignore" hignore, hunknown,
    IsGiven.congr (get?_withoutExtensions (by decide) (by decide)),
    IsGiven.congr (get?_withoutExtensions (by decide) (by decide))]

/-- Discovery settings keep the meaning of the table that they are read from exactly when neither extension loosens the check. -/
theorem extensions_keep_validation_iff {c : Checks} (hc : c.Lawful) {d : Fields} {s : Discovery}
    (h : Discovery.ofValue c (.table d) = .ok (.ok s)) :
    Keeps c d s ↔ ¬ Loosens d "accept" ∧ ¬ Loosens d "ignore" := by
  obtain ⟨accept, ignore⟩ := s
  obtain ⟨haccept, hignore, hunknown⟩ := (ofValue_eq_ok_iff hc d _).1 h
  rw [← haccept.extended_iff, ← hignore.extended_iff]
  constructor
  · rintro ⟨base, as, is, -, hbaseAccept, hbaseIgnore, has, his, hsame⟩
    cases hsame
    exact ⟨⟨_, as, hbaseAccept, has, rfl⟩, ⟨_, is, hbaseIgnore, his, rfl⟩⟩
  · rintro ⟨⟨baseAccept, as, hbaseAccept, has, rfl⟩, ⟨baseIgnore, is, hbaseIgnore, his, rfl⟩⟩
    exact ⟨⟨baseAccept, baseIgnore⟩, as, is, (ofValue_withoutExtensions_iff hc d _).2 ⟨hbaseAccept, hbaseIgnore, hunknown⟩,
      hbaseAccept, hbaseIgnore, has, his, rfl⟩

/-- A list with an extension, and an extension of the default by a single text. -/
theorem extensions_keep_validation_witness :
    Checks.usual.Lawful ∧ ∃ s, Discovery.ofValue .usual (.table
        [("accept", texts ["*.a"]), ("extend_accept", texts ["*.b", "*.c"]), ("extend_ignore", .text "d")]) = .ok (.ok s) ∧
      Keeps .usual [("accept", texts ["*.a"]), ("extend_accept", texts ["*.b", "*.c"]), ("extend_ignore", .text "d")] s := by
  have hread : Discovery.ofValue .usual (.table
      [("accept", texts ["*.a"]), ("extend_accept", texts ["*.b", "*.c"]), ("extend_ignore", .text "d")]) =
        .ok (.ok ⟨["*.a", "*.b", "*.c"], defaultIgnore ++ [Text.ofString "d"]⟩) := by cbv
  refine ⟨Checks.lawful_usual, _, hread, (extensions_keep_validation_iff Checks.lawful_usual hread).2 ⟨?_, ?_⟩⟩
  · rintro ⟨v, hv, hloose⟩
    cases hv
    rcases hloose with h | h | ⟨b, hb, h⟩
    · cases h
    · exact h _ (.list ["*.b", "*.c"])
    · cases hb
      exact h _ rfl
  · rintro ⟨v, hv, hloose⟩
    cases hv
    rcases hloose with h | h | ⟨b, hb, h⟩
    · cases h
    · exact h _ (.single "d")
    · cases hb

/-- A text that is refused as a list is taken as a list of its characters once an extension stands beside it. -/
theorem extension_spreads_text :
    Discovery.ofValue .usual (.table [("accept", .text "*.php"), ("extend_accept", texts ["*.twig"])]) =
        .ok (.ok ⟨["*", ".", "p", "h", "p", "*.twig"], defaultIgnore⟩) ∧
      Discovery.ofValue .usual (.table (withoutExtensions [("accept", .text "*.php"), ("extend_accept", texts ["*.twig"])])) =
        .ok (.error [⟨[.name "accept"], .notList, .text "*.php"⟩]) := by
  constructor <;> cbv

end SourceTidy.Config
