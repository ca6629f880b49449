import SourceTidy.Config.Reading
import SourceTidy.Proofs.Attempt
import SourceTidy.Proofs.Value.Distinct

/-!
# Reading settings

What reading a table of settings comes to, setting by setting, for any checks of which a few things are known (`Checks.Lawful`): a
complaint is about the setting at the head of its location (`head?_location_of_mem_setting`), or about a key that is not known. The
table for discovery is read first, and the others complete what it gives (`ofValue_of_discoveryIn`).
-/

namespace SourceTidy.Config

/-! ## Extending lists -/

/-- Whether a value holds items: an array, a text or a table. -/
def HoldsItems : Value → Prop
  | .array _ | .text _ | .table _ => True
  | _ => False

theorem exists_itemsOf_eq_error_iff (v : Value) : (∃ e, itemsOf v = .error e) ↔ ¬ HoldsItems v := by
  cases v <;> simp [itemsOf, HoldsItems]

theorem exists_extension_eq_error_iff (v : Value) :
    (∃ e, extension v = .error e) ↔ v.isTruthy = true ∧ ¬ HoldsItems v := by
  unfold extension
  cases htruthy : v.isTruthy with
  | false => simp
  | true => cases v <;> simp [itemsOf, HoldsItems]

theorem exists_extended_eq_error_iff (d : Fields) (name : Text) (default : List Text) :
    (∃ e, extended d name default = .error e) ↔ ∃ b, d.get? name = some b ∧ b ≠ .null ∧ ¬ HoldsItems b := by
  rw [extended]
  split
  · rename_i hnone
    simp [hnone]
  · rename_i hnull
    simp [hnull]
  · rename_i b hne hb
    have hnotNull : b ≠ .null := fun h => hne h
    simp [hb, exists_itemsOf_eq_error_iff, hnotNull]

/-- Whether a table has a key that extends the list of a name, and cannot: its value counts as something but holds no items, or the
value that stands for the list holds none. -/
def CannotExtend (d : Fields) (name : Text) : Prop :=
  ∃ v, d.get? (Text.ofString "extend_" ++ name) = some v ∧
    (v.isTruthy = true ∧ ¬ HoldsItems v ∨ ∃ b, d.get? name = some b ∧ b ≠ .null ∧ ¬ HoldsItems b)

theorem exists_foldExtension_eq_error_iff (name : Text) (default : List Text) (d : Fields) :
    (∃ e, foldExtension name default d = .error e) ↔ CannotExtend d name := by
  unfold foldExtension CannotExtend
  simp only [← exists_extension_eq_error_iff, ← exists_extended_eq_error_iff d name default]
  split
  · rename_i hnone
    simp [hnone]
  · rename_i v hv
    simp only [hv, Option.some.injEq, exists_eq_left']
    cases hbase : extended d name default with
    | error e => simp [Except.bind_eq_error_iff]
    | ok base => simp [Except.bind_eq_error_iff, Except.map_eq_error_iff]

/-- Folding an extension in changes a table at the two keys of the list only. -/
theorem get?_of_foldExtension {name : Text} {default : List Text} {d d' : Fields} (h : foldExtension name default d = .ok d')
    (key : Text) (hname : key ≠ name) (hextending : key ≠ Text.ofString "extend_" ++ name) : d'.get? key = d.get? key := by
  simp only [foldExtension] at h
  split at h
  · cases h
    rfl
  · obtain ⟨base, -, h⟩ := Except.bind_eq_ok_iff.1 h
    obtain ⟨extras, -, h⟩ := Except.bind_eq_ok_iff.1 h
    cases h
    rw [Fields.get?_put, if_neg hname, Fields.get?_erase, if_neg hextending]

/-- Discovery settings cannot be read at all exactly when they are a table in which a list cannot be extended. -/
theorem exists_foldExtensions_eq_error_iff (v : Value) :
    (∃ e, foldExtensions v = .error e) ↔ ∃ d, v = .table d ∧ (CannotExtend d "accept" ∨ CannotExtend d "ignore") := by
  cases v with
  | table d =>
    have hignore {d' : Fields} (h : foldExtension "accept" defaultAccept d = .ok d') :
        CannotExtend d' "ignore" ↔ CannotExtend d "ignore" := by
      rw [CannotExtend, CannotExtend, get?_of_foldExtension h _ (by decide) (by decide),
        get?_of_foldExtension h "ignore" (by decide) (by decide)]
    simp only [Value.table.injEq, exists_eq_left']
    rw [foldExtensions, ← exists_foldExtension_eq_error_iff "accept" defaultAccept d]
    cases haccept : foldExtension "accept" defaultAccept d with
    | error e => simp [Except.bind_eq_error_iff]
    | ok d' =>
      rw [← hignore haccept, ← exists_foldExtension_eq_error_iff _ defaultIgnore d']
      simp [Except.bind_eq_error_iff, Except.map_eq_error_iff]
  | _ => simp [foldExtensions]

/-! ## Lists of texts -/

/-- An array of texts. -/
def texts (ts : List Text) : Value := .array (ts.map .text)

theorem textsOf_eq_ok_iff (v : Value) (ts : List Text) : textsOf v = .ok ts ↔ v = texts ts := by
  have to_ (ts : List Text) (i : Nat) : textsFrom i (ts.map .text) = .ok ts := by
    induction ts generalizing i with
    | nil => rfl
    | cons t ts ih => rw [List.map_cons, textsFrom, ih]; rfl
  have from_ (vs : List Value) (i : Nat) (ts : List Text) (h : textsFrom i vs = .ok ts) : vs = ts.map .text := by
    induction vs generalizing i ts with
    | nil =>
      cases h
      rfl
    | cons v vs ih =>
      cases v with
      | text t =>
        obtain ⟨us, hus, rfl⟩ := Except.map_eq_ok_iff.1 h
        rw [ih _ _ hus]
        rfl
      | _ => cases h
  constructor
  · intro h
    cases v with
    | array vs => exact congrArg Value.array (from_ vs 0 ts h)
    | _ => cases h
  · rintro rfl
    exact to_ ts 0

theorem extension_texts (ts : List Text) : extension (texts ts) = .ok (ts.map .text) := by
  cases ts with
  | nil => rfl
  | cons t ts => rfl

/-! ## Complaints -/

theorem unknownKeys_eq_nil_iff (t : Fields) (known : List Text) :
    unknownKeys t known = [] ↔ ∀ key, key ∉ known → t.get? key = none := by
  simp only [unknownKeys, List.map_eq_nil_iff, List.filter_eq_nil_iff, Fields.get?_eq_none_iff, Fields.keys, List.mem_map]
  constructor
  · rintro h key hkey ⟨p, hp, rfl⟩
    exact h p hp (by simpa using hkey)
  · intro h p hp hkey
    exact h p.1 (by simpa using hkey) ⟨p, hp, rfl⟩

theorem head?_location_of_mem_unknownKeys {t : Fields} {known : List Text} {c : Complaint} (h : c ∈ unknownKeys t known) :
    ∃ key, key ∉ known ∧ c.location.head? = some (.name key) := by
  obtain ⟨p, hp, rfl⟩ := List.mem_map.1 h
  exact ⟨p.1, by simpa using (List.mem_filter.1 hp).2, rfl⟩

theorem head?_location_of_mem_setting {α : Type} {t : Fields} {name : Text} {read : Value → Checked α} {default : α}
    {c : Complaint} (h : c ∈ complaints (setting t name read default)) : c.location.head? = some (.name name) := by
  unfold setting at h
  split at h
  · cases h
  · rename_i v hv
    cases hread : read v with
    | ok a =>
      rw [hread] at h
      cases h
    | error cs =>
      rw [hread] at h
      obtain ⟨c', -, rfl⟩ := List.mem_map.1 h
      rfl

/-! ## What is known of checks -/

/-- What is known of how values are checked: a list of texts is an array of texts; a group has no settings that are complained about
and no keys that are not known, and what it is complained about is one or the other. -/
structure Checks.Lawful (c : Checks) : Prop where
  textsOf_eq_ok_iff : ∀ v ts, c.textsOf v = .ok ts ↔ v = texts ts
  group_eq_ok_iff : ∀ {α : Type} (t : Fields) (known : List Text) (found : List Complaint) (result : Option α) (a : α),
    c.group t known found result = .ok a ↔
      found = [] ∧ (∀ key, key ∉ known → t.get? key = none) ∧ result = some a
  mem_of_group_eq_error : ∀ {α : Type} (t : Fields) (known : List Text) (found : List Complaint) (result : Option α)
    (cs : List Complaint), c.group t known found result = .error cs →
      ∀ x ∈ cs, x ∈ found ∨ ∃ key, key ∉ known ∧ x.location.head? = some (.name key)

theorem Checks.lawful_usual : Checks.usual.Lawful where
  textsOf_eq_ok_iff := Config.textsOf_eq_ok_iff
  group_eq_ok_iff t known found result a := by
    change settled (found ++ unknownKeys t known) result = .ok a ↔ _
    rw [← unknownKeys_eq_nil_iff, ← and_assoc, ← List.append_eq_nil_iff]
    unfold settled
    split <;> simp_all
  mem_of_group_eq_error t known found result cs h x hx := by
    have hcs : cs = found ++ unknownKeys t known := by
      change settled (found ++ unknownKeys t known) result = .error cs at h
      unfold settled at h
      split at h
      · cases h
      · exact (Except.error.inj h).symm
    rw [hcs, List.mem_append] at hx
    exact hx.imp_right head?_location_of_mem_unknownKeys

/-! ## All settings -/

section

variable (c : Checks) (f : Fields)

/-- What is complained about in the settings of a table, apart from its table for discovery. -/
def otherComplaints : List Complaint :=
  complaints (setting f "tasks" (TaskOptions.ofValue c) {}) ++ complaints (setting f "output" (Output.ofValue c) {})
    ++ complaints (setting f "fix" c.boolOf false)

/-- The settings of a table with a given discovery, if the others can be read. -/
def completed (d : Discovery) : Option Settings := do
  return ⟨d, ← (setting f "tasks" (TaskOptions.ofValue c) {}).toOption, ← (setting f "output" (Output.ofValue c) {}).toOption,
    ← (setting f "fix" c.boolOf false).toOption⟩

end

variable {c : Checks} {f : Fields}

theorem not_discovery_of_mem_otherComplaints {x : Complaint} (h : x ∈ otherComplaints c f) :
    x.location.head? ≠ some (.name "discovery") := by
  simp only [otherComplaints, List.mem_append] at h
  rcases h with (h | h) | h
  · rw [head?_location_of_mem_setting h]
    decide
  · rw [head?_location_of_mem_setting h]
    decide
  · rw [head?_location_of_mem_setting h]
    decide

/-- A table of nothing but discovery completes it by defaults. -/
theorem completed_of_discovery_only (h : ∀ key, key ≠ Text.ofString "discovery" → f.get? key = none) (d : Discovery) :
    otherComplaints c f = [] ∧ completed c f d = some { discovery := d } := by
  have habsent {α : Type} (name : Text) (read : Value → Checked α) (default : α) (hname : name ≠ Text.ofString "discovery") :
      setting f name read default = .ok default := by rw [setting, h name hname]
  have htasks := habsent "tasks" (TaskOptions.ofValue c) {} (by decide)
  have houtput := habsent "output" (Output.ofValue c) {} (by decide)
  have hfix := habsent "fix" c.boolOf false (by decide)
  refine ⟨?_, ?_⟩
  · rw [otherComplaints, htasks, houtput, hfix]
    rfl
  · rw [completed, htasks, houtput, hfix]
    rfl

/-- The discovery settings inside a table of settings cannot be read at all exactly when a list in them cannot be extended. -/
theorem exists_discoveryIn_eq_error_iff (c : Checks) (f : Fields) :
    (∃ e, discoveryIn c f = .error e) ↔
      ∃ d, f.get? "discovery" = some (.table d) ∧ (CannotExtend d "accept" ∨ CannotExtend d "ignore") := by
  unfold discoveryIn
  cases hget : f.get? "discovery" with
  | none => simp
  | some v =>
    have hmap (e : NotIterable) : (Discovery.ofValue c v).map (Checked.under (.name "discovery")) = .error e ↔
        foldExtensions v = .error e := by
      rw [Discovery.ofValue]
      cases foldExtensions v <;> simp [Except.map]
    simp only [hmap, Option.some.injEq]
    exact exists_foldExtensions_eq_error_iff v

/-- Settings that are not taken are complained about, unless their discovery settings cannot be read at all. -/
theorem ofValue_eq_notIterable_iff {e : NotIterable} :
    Settings.ofValue c (.table f) = .error (.notIterable e) ↔ discoveryIn c f = .error e := by
  rw [Settings.ofValue, Except.bind_eq_error_iff, Except.mapError_eq_error_iff]
  constructor
  · rintro (⟨e', he', h⟩ | ⟨discovery, -, h⟩)
    · cases h
      exact he'
    · obtain ⟨cs, -, h⟩ := Except.mapError_eq_error_iff.1 h
      cases h
  · exact fun h => .inl ⟨e, h, rfl⟩

/-- Settings with nothing wrong in their discovery: they are read with that discovery, or something else is complained about. -/
theorem ofValue_of_discoveryIn (hc : c.Lawful) {d : Discovery} (h : discoveryIn c f = .ok (.ok d)) :
    (∃ s, Settings.ofValue c (.table f) = .ok s ∧ s.discovery = d) ∨
      ∃ cs, Settings.ofValue c (.table f) = .error (.complaints .settings cs) ∧
        (∀ x ∈ cs, x.location.head? ≠ some (.name "discovery")) ∧
          ∃ key, key ≠ Text.ofString "discovery" ∧ f.get? key ≠ none := by
  have hof : Settings.ofValue c (.table f) =
      (c.group f ["discovery", "tasks", "output", "fix"] (otherComplaints c f) (completed c f d)).mapError
        (.complaints .settings) := by
    rw [Settings.ofValue, h]
    rfl
  cases hs : c.group f ["discovery", "tasks", "output", "fix"] (otherComplaints c f) (completed c f d) with
  | ok s =>
    refine .inl ⟨s, by rw [hof, hs]; rfl, ?_⟩
    have hcompleted := ((hc.group_eq_ok_iff f _ _ _ s).1 hs).2.2
    simp only [completed, Option.bind_eq_bind, Option.bind_eq_some_iff] at hcompleted
    obtain ⟨_, -, _, -, _, -, hcompleted⟩ := hcompleted
    cases hcompleted
    rfl
  | error cs =>
    refine .inr ⟨cs, by rw [hof, hs]; rfl, fun x hx => ?_, ?_⟩
    · rcases hc.mem_of_group_eq_error f _ _ _ cs hs x hx with hother | ⟨key, hkey, hlocation⟩
      · exact not_discovery_of_mem_otherComplaints hother
      · rw [hlocation]
        intro heq
        cases heq
        exact hkey List.mem_cons_self
    · refine Classical.byContradiction fun hnone => ?_
      have hkeys : ∀ key, key ≠ Text.ofString "discovery" → f.get? key = none :=
        fun key hkey => Classical.not_not.1 fun hget => hnone ⟨key, hkey, hget⟩
      obtain ⟨hothers, hcompleted⟩ := completed_of_discovery_only (c := c) hkeys d
      have hknown : ∀ key, key ∉ [Text.ofString "discovery", "tasks", "output", "fix"] → f.get? key = none :=
        fun key hkey => hkeys key fun heq => hkey (heq ▸ List.mem_cons_self)
      rw [(hc.group_eq_ok_iff f _ _ _ _).2 ⟨hothers, hknown, hcompleted⟩] at hs
      cases hs

end SourceTidy.Config
