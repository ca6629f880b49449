import Mathlib
import SourceTidy.Proofs.Config.Gather
import SourceTidy.Proofs.Config.Layer
import SourceTidy.Proofs.Config.Settings

/-!
# Lists of patterns from layered sources

A source can give a layer of the list of the patterns to accept, and one of the list of those to ignore (`Gives`). Laying the
tables of the sources over each other lays the layers over each other (`gather_of_gives`), and what is read from the merge is
the list that the merged layers make of the default (`loadSources_patterns`). It need not be the one that the layers make one by
one.
-/

namespace SourceTidy.Config

/-! ## What tables give -/

/-- What a table of settings has at a key of its table for discovery. -/
def discoveryAt (f : Fields) (key : Text) : Option Value :=
  match f.get? "discovery" with
  | some (.table d) => Fields.get? d key
  | _ => none

/-- Whether a table of settings has nothing but a table for discovery, if anything. -/
def HasTable (f : Fields) : Prop := ∀ v, f.get? "discovery" = some v → ∃ d, v = .table d

/-- Whether a layer is what a table of settings gives for the list of a name. -/
structure Layer.IsAt (a : Layer) (f : Fields) (name : Text) : Prop where
  whole : discoveryAt f name = a.whole.map texts
  extra : discoveryAt f (Text.ofString "extend_" ++ name) = a.extra.map texts

/-- What a source gives for both lists of patterns. -/
structure Patterns where
  accept : Layer := {}
  ignore : Layer := {}

/-- What a source gives laid over what is below it. -/
def Patterns.overlay (below p : Patterns) : Patterns := ⟨below.accept.overlay p.accept, below.ignore.overlay p.ignore⟩

/-- The keys of lists of patterns. -/
def patternKeys : List Text := ["accept", "extend_accept", "ignore", "extend_ignore"]

/-- Whether a table of settings gives patterns, and nothing else for discovery. -/
structure Gives (f : Fields) (p : Patterns) : Prop where
  hasTable : HasTable f
  accept : p.accept.IsAt f "accept"
  ignore : p.ignore.IsAt f "ignore"
  others : ∀ key, key ∉ patternKeys → discoveryAt f key = none

/-! ## Merging -/

theorem hasTable_merge {lower upper : Fields} (hdistinct : upper.Distinct) (hlower : HasTable lower) (hupper : HasTable upper) :
    HasTable (Fields.merge lower upper) := by
  intro v hv
  rw [Fields.get?_merge ((Fields.distinct_iff upper).1 hdistinct).1] at hv
  split at hv
  · exact hlower v hv
  · rename_i w hw
    cases hv
    obtain ⟨d, rfl⟩ := hupper w hw
    cases hl : lower.get? "discovery" with
    | none => exact ⟨d, Value.over_none _⟩
    | some w =>
      obtain ⟨d', rfl⟩ := hlower w hl
      exact ⟨_, Value.over_table d' d⟩

/-- A key of the table for discovery, after a merge. -/
theorem discoveryAt_merge {lower upper : Fields} (hdistinct : upper.Distinct) (hlower : HasTable lower) (hupper : HasTable upper)
    (key : Text) :
    discoveryAt (Fields.merge lower upper) key =
      match discoveryAt upper key with
      | none => discoveryAt lower key
      | some v => some (Value.over (discoveryAt lower key) v) := by
  unfold discoveryAt
  rw [Fields.get?_merge ((Fields.distinct_iff upper).1 hdistinct).1]
  cases hu : upper.get? "discovery" with
  | none => rfl
  | some v =>
    obtain ⟨d', rfl⟩ := hupper v hu
    have hkeys := ((Fields.distinct_iff d').1 (hdistinct.get? hu)).1
    cases hl : lower.get? "discovery" with
    | none =>
      simp only [Value.over_none]
      cases Fields.get? d' key <;> rfl
    | some w =>
      obtain ⟨d, rfl⟩ := hlower w hl
      simp only [Value.over_table]
      exact Fields.get?_merge hkeys d key

theorem Layer.IsAt.merge {lower upper : Fields} {name : Text} {a b : Layer} (hdistinct : upper.Distinct)
    (hlower : HasTable lower) (hupper : HasTable upper) (ha : a.IsAt lower name) (hb : b.IsAt upper name) :
    (a.overlay b).IsAt (Fields.merge lower upper) name := by
  have at_key (key : Text) (x y : Option (List Text)) (hx : discoveryAt lower key = x.map texts)
      (hy : discoveryAt upper key = y.map texts) :
      discoveryAt (Fields.merge lower upper) key = (y.or x).map texts := by
    rw [discoveryAt_merge hdistinct hlower hupper, hy, hx]
    cases y with
    | none => rfl
    | some ts => exact congrArg some (Value.over_of_not_isTable _ rfl)
  exact ⟨at_key _ _ _ ha.whole hb.whole, at_key _ _ _ ha.extra hb.extra⟩

/-- One more table laid over others gives its patterns over theirs. -/
theorem Gives.merge {lower upper : Fields} {p q : Patterns} (hdistinct : upper.Distinct) (hp : Gives lower p)
    (hq : Gives upper q) : Gives (Fields.merge lower upper) (p.overlay q) where
  hasTable := hasTable_merge hdistinct hp.hasTable hq.hasTable
  accept := hp.accept.merge hdistinct hp.hasTable hq.hasTable hq.accept
  ignore := hp.ignore.merge hdistinct hp.hasTable hq.hasTable hq.ignore
  others key hkey := by
    rw [discoveryAt_merge hdistinct hp.hasTable hq.hasTable, hq.others key hkey]
    exact hp.others key hkey

theorem gives_nil : Gives [] {} := ⟨nofun, ⟨rfl, rfl⟩, ⟨rfl, rfl⟩, fun _ _ => rfl⟩

/-- Every key of a table that gives patterns has an array of texts there. -/
theorem Gives.texts_of_discoveryAt {f : Fields} {p : Patterns} (h : Gives f p) {key : Text} {v : Value}
    (hv : discoveryAt f key = some v) : ∃ ts, v = texts ts := by
  have of_map {x : Option (List Text)} (hx : discoveryAt f key = x.map texts) : ∃ ts, v = texts ts := by
    obtain ⟨ts, -, hts⟩ := Option.map_eq_some_iff.1 (hx.symm.trans hv)
    exact ⟨ts, hts.symm⟩
  by_cases hkey : key ∈ patternKeys
  · simp only [patternKeys, List.mem_cons, List.not_mem_nil, or_false] at hkey
    rcases hkey with rfl | rfl | rfl | rfl
    · exact of_map h.accept.whole
    · exact of_map h.accept.extra
    · exact of_map h.ignore.whole
    · exact of_map h.ignore.extra
  · exact absurd (hv.symm.trans (h.others key hkey)) nofun

/-- A table of nothing but patterns has two tables inside each other, whatever it is laid over. -/
theorem Gives.overlap_le {f : Fields} {p : Patterns} (h : Gives f p) (hdistinct : f.Distinct)
    (honly : ∀ key, key ≠ Text.ofString "discovery" → f.get? key = none) (lower : Fields) :
    Fields.overlap lower f ≤ 2 := by
  obtain ⟨hkeys, -⟩ := (Fields.distinct_iff f).1 hdistinct
  refine Fields.overlap_le (n := 1) fun q hq => ?_
  have hget := Fields.get?_of_mem hkeys hq
  have hkey : q.1 = Text.ofString "discovery" := by
    by_contra hne
    exact absurd (hget.symm.trans (honly _ hne)) nofun
  rw [hkey] at hget
  obtain ⟨d, hd⟩ := h.hasTable _ hget
  rw [hd] at hget
  rw [hd]
  refine Fields.overlap_table_le (fun lower' => Fields.overlap_le (n := 0) fun r hr => ?_) _
  have hat : discoveryAt f r.1 = some r.2 := by
    rw [discoveryAt, hget]
    exact Fields.get?_of_mem ((Fields.distinct_iff d).1 (hdistinct.get? hget)).1 hr
  obtain ⟨ts, hts⟩ := h.texts_of_discoveryAt hat
  rw [hts]
  exact Nat.le_of_eq (Value.overlap_of_not_isTable _ rfl)

/-! ## Gathering -/

/-- Whether a source can be read, and gives patterns and nothing else for discovery. -/
def Source.Gives (stack : Toml.Stack) (t : Tree) (work : Location) (s : Source) (p : Patterns) : Prop :=
  ∃ f, s.load stack t work = .ok f ∧ Config.Gives f p

/-- Whether a source has a setting that is not for discovery. -/
def Source.HasMore (stack : Toml.Stack) (t : Tree) (work : Location) (s : Source) : Prop :=
  ∃ f, s.load stack t work = .ok f ∧ ∃ key, key ≠ Text.ofString "discovery" ∧ f.get? key ≠ none

/-- What is known of what settings are loaded with: of its checks, and that there is room to merge the table for discovery
inside the outermost one. -/
structure Means.Lawful (m : Means) : Prop where
  checks : m.checks.Lawful
  one_le_mergeRoom : 1 ≤ m.mergeRoom

theorem Means.lawful_usual : Means.usual.Lawful := ⟨Checks.lawful_usual, by decide⟩

section

variable {m : Means} (hm : m.Lawful) {t : Tree} {work : Location}
include hm

/-- One more source gives its patterns over what has been gathered, if there is room for what else it has. -/
theorem Gathered.add_of_gives {g : Gathered} {s : Source} {p q : Patterns} (hg : Config.Gives g.table p)
    (hs : s.Gives m.stack t work q) :
    (∃ g', g.add m t work s = .ok g' ∧ Config.Gives g'.table (p.overlay q)) ∨
      g.add m t work s = .error .mergedTooDeep ∧ s.HasMore m.stack t work := by
  obtain ⟨f, hf, hq⟩ := hs
  rcases add_of_load hf g with ⟨-, g', hg', htable⟩ | ⟨hdeep, herror⟩
  · refine .inl ⟨g', hg', ?_⟩
    rw [htable]
    exact hg.merge (Source.distinct_load hf) hq
  · refine .inr ⟨herror, f, hf, ?_⟩
    by_contra hnone
    have honly : ∀ key, key ≠ Text.ofString "discovery" → f.get? key = none :=
      fun key hkey => not_not.1 fun hget => hnone ⟨key, hkey, hget⟩
    exact absurd (hq.overlap_le (Source.distinct_load hf) honly g.table)
      (Nat.not_le.2 (Nat.lt_of_le_of_lt (Nat.succ_le_succ hm.one_le_mergeRoom) hdeep))

theorem Gathered.foldlM_add_of_gives {sources : List Source} {ps : List Patterns} {g : Gathered} {p : Patterns}
    (h : List.Forall₂ (Source.Gives m.stack t work) sources ps) (hg : Config.Gives g.table p) :
    (∃ g', sources.foldlM (add m t work) g = .ok g' ∧ Config.Gives g'.table (ps.foldl Patterns.overlay p)) ∨
      sources.foldlM (add m t work) g = .error .mergedTooDeep ∧ ∃ s ∈ sources, s.HasMore m.stack t work := by
  induction h generalizing g p with
  | nil => exact .inl ⟨g, rfl, hg⟩
  | @cons s q sources ps hs _ ih =>
    rcases add_of_gives hm hg hs with ⟨g₁, hg₁, hgives⟩ | ⟨herror, hmore⟩
    · rcases ih hgives with ⟨g', hg', hrest⟩ | ⟨herror, s', hs', hmore⟩
      · exact .inl ⟨g', Except.bind_eq_ok_iff.2 ⟨g₁, hg₁, hg'⟩, hrest⟩
      · exact .inr ⟨Except.bind_eq_error_iff.2 (.inr ⟨g₁, hg₁, herror⟩), s', List.mem_cons_of_mem s hs', hmore⟩
    · exact .inr ⟨Except.bind_eq_error_iff.2 (.inl herror), s, List.mem_cons_self, hmore⟩

omit hm in
theorem foldl_overlay (ps : List Patterns) (p : Patterns) :
    ps.foldl Patterns.overlay p =
      ⟨(ps.map (·.accept)).foldl Layer.overlay p.accept, (ps.map (·.ignore)).foldl Layer.overlay p.ignore⟩ := by
  induction ps generalizing p with
  | nil => rfl
  | cons q ps ih => exact ih (p.overlay q)

/-- Gathered sources give, for each list, the merge of what they give for it. -/
theorem gather_of_gives {sources : List Source} {ps : List Patterns} (h : List.Forall₂ (Source.Gives m.stack t work) sources ps) :
    (∃ g, gather m t work sources = .ok g ∧
        Gives g.table ⟨Layer.merged (ps.map (·.accept)), Layer.merged (ps.map (·.ignore))⟩) ∨
      gather m t work sources = .error .mergedTooDeep ∧ ∃ s ∈ sources, s.HasMore m.stack t work := by
  have hrun := Gathered.foldlM_add_of_gives hm (g := {}) h gives_nil
  rw [foldl_overlay] at hrun
  exact hrun

end

/-! ## Reading -/

section

variable {c : Checks} (hc : c.Lawful)
include hc

theorem Checks.Lawful.textsOf_texts (ts : List Text) : c.textsOf (texts ts) = .ok ts := (hc.textsOf_eq_ok_iff _ _).2 rfl

/-- Folding an extension in gives the list of a layer. The other keys stay as they are. -/
theorem foldExtension_texts {d : Fields} {name : Text} {a : Layer} (default : List Text) (hwhole : d.get? name = a.whole.map texts)
    (hextra : d.get? (Text.ofString "extend_" ++ name) = a.extra.map texts) :
    ∃ d', foldExtension name default d = .ok d' ∧ setting d' name c.textsOf default = .ok (a.list default) ∧
      d'.get? (Text.ofString "extend_" ++ name) = none ∧
        ∀ key, key ≠ name → key ≠ Text.ofString "extend_" ++ name → d'.get? key = d.get? key := by
  have hname : Text.ofString "extend_" ++ name ≠ name := fun h => absurd (List.append_left_eq_self.1 h) (by decide)
  suffices h : ∃ d', foldExtension name default d = .ok d' ∧ setting d' name c.textsOf default = .ok (a.list default) ∧
      d'.get? (Text.ofString "extend_" ++ name) = none by
    obtain ⟨d', hd', hlist, hnone⟩ := h
    exact ⟨d', hd', hlist, hnone, get?_of_foldExtension hd'⟩
  cases hx : a.extra with
  | none =>
    rw [hx] at hextra
    refine ⟨d, by rw [foldExtension, hextra]; rfl, ?_, hextra⟩
    rw [setting, hwhole]
    cases hw : a.whole with
    | none => simp [Layer.list, hw, hx]
    | some ts => simp [Layer.list, hw, hx, hc.textsOf_texts, Checked.under]
  | some us =>
    have hbase : extended d name default = .ok ((a.whole.getD default).map .text) := by
      rw [extended, hwhole]
      cases a.whole with
      | none => rfl
      | some ts => rfl
    have hlist : Value.array ((a.whole.getD default).map .text ++ us.map .text) = texts (a.list default) := by
      simp [texts, Layer.list, hx]
    refine ⟨(d.erase (Text.ofString "extend_" ++ name)).put name (texts (a.list default)), ?_, ?_, ?_⟩
    · rw [hx] at hextra
      rw [foldExtension, hextra, ← hlist]
      simp only [Option.map_some, hbase, extension_texts]
      rfl
    · rw [setting, Fields.get?_put, if_pos rfl]
      simp [hc.textsOf_texts, Checked.under]
    · rw [Fields.get?_put, if_neg hname, Fields.get?_erase, if_pos rfl]

omit hc in
/-- A layer of a table without discovery settings is empty. -/
theorem Layer.IsAt.list_eq_default {a : Layer} {f : Fields} {name : Text} (h : a.IsAt f name)
    (hnone : ∀ key, discoveryAt f key = none) (default : List Text) : a.list default = default := by
  have hwhole := h.whole
  have hextra := h.extra
  rw [hnone, eq_comm, Option.map_eq_none_iff] at hwhole hextra
  simp [Layer.list, hwhole, hextra]

/-- Discovery settings of nothing but lists of texts are read as the lists that their layers make. -/
theorem ofValue_of_texts {d : Fields} {accept ignore : Layer} (hacceptWhole : d.get? "accept" = accept.whole.map texts)
    (hacceptExtra : d.get? (Text.ofString "extend_" ++ Text.ofString "accept") = accept.extra.map texts)
    (hignoreWhole : d.get? "ignore" = ignore.whole.map texts)
    (hignoreExtra : d.get? (Text.ofString "extend_" ++ Text.ofString "ignore") = ignore.extra.map texts)
    (hothers : ∀ key, key ∉ patternKeys → d.get? key = none) :
    Discovery.ofValue c (.table d) = .ok (.ok ⟨accept.list defaultAccept, ignore.list defaultIgnore⟩) := by
  obtain ⟨d₁, hd₁, haccept, hextra₁, hother₁⟩ := foldExtension_texts hc defaultAccept hacceptWhole hacceptExtra
  obtain ⟨d₂, hd₂, hignore, hextra₂, hother₂⟩ := foldExtension_texts hc (d := d₁) defaultIgnore
    ((hother₁ "ignore" (by decide) (by decide)).trans hignoreWhole)
    ((hother₁ (Text.ofString "extend_" ++ Text.ofString "ignore") (by decide) (by decide)).trans hignoreExtra)
  have haccept₂ : setting d₂ "accept" c.textsOf defaultAccept = .ok (accept.list defaultAccept) := by
    rw [← haccept, setting, setting, hother₂ "accept" (by decide) (by decide)]
  have hknown : ∀ key, key ∉ [Text.ofString "accept", "ignore"] → d₂.get? key = none := by
    intro key hkey
    obtain ⟨ha, hi⟩ : key ≠ "accept" ∧ key ≠ "ignore" := by simpa using hkey
    by_cases hxi : key = Text.ofString "extend_" ++ Text.ofString "ignore"
    · rw [hxi]
      exact hextra₂
    rw [hother₂ key hi hxi]
    by_cases hxa : key = Text.ofString "extend_" ++ Text.ofString "accept"
    · rw [hxa]
      exact hextra₁
    rw [hother₁ key ha hxa]
    refine hothers key ?_
    simp only [patternKeys, List.mem_cons, List.not_mem_nil, or_false, not_or]
    exact ⟨ha, fun h => hxa (h.trans (by decide)), hi, fun h => hxi (h.trans (by decide))⟩
  have hfold : foldExtensions (.table d) = .ok (.table d₂) :=
    Except.bind_eq_ok_iff.2 ⟨d₁, hd₁, Except.bind_eq_ok_iff.2 ⟨d₂, hd₂, rfl⟩⟩
  have hplain : Discovery.ofPlain c (.table d₂) = .ok ⟨accept.list defaultAccept, ignore.list defaultIgnore⟩ := by
    simp only [Discovery.ofPlain, haccept₂, hignore]
    exact (hc.group_eq_ok_iff d₂ _ _ _ _).2 ⟨rfl, hknown, rfl⟩
  simp only [Discovery.ofValue, hfold, Except.map, hplain]

/-- The discovery settings of a table that gives patterns. -/
theorem Gives.discoveryIn_eq {f : Fields} {p : Patterns} (h : Gives f p) :
    discoveryIn c f = .ok (.ok ⟨p.accept.list defaultAccept, p.ignore.list defaultIgnore⟩) := by
  unfold discoveryIn
  cases hget : f.get? "discovery" with
  | none =>
    have hnone (key : Text) : discoveryAt f key = none := by rw [discoveryAt, hget]
    rw [h.accept.list_eq_default hnone, h.ignore.list_eq_default hnone]
  | some v =>
    obtain ⟨d, rfl⟩ := h.hasTable v hget
    have hat (key : Text) : Fields.get? d key = discoveryAt f key := by rw [discoveryAt, hget]
    have hof := ofValue_of_texts hc ((hat _).trans h.accept.whole) ((hat _).trans h.accept.extra)
      ((hat _).trans h.ignore.whole) ((hat _).trans h.ignore.extra) fun key hkey => (hat key).trans (h.others key hkey)
    simp only [hof, Except.map]
    rfl

end

/-! ## Loading -/

section

variable {m : Means} (hm : m.Lawful) {t : Tree} {work : Location} {sources : List Source} {ps : List Patterns}
include hm

/-- What loading sources that give patterns comes to. -/
theorem loadSources_of_gives (h : List.Forall₂ (Source.Gives m.stack t work) sources ps) :
    (∃ r, loadSources m t work sources = .ok r ∧
        r.settings.discovery = ⟨(Layer.merged (ps.map (·.accept))).list defaultAccept,
          (Layer.merged (ps.map (·.ignore))).list defaultIgnore⟩) ∨
      ∃ e, loadSources m t work sources = .error e ∧ (∃ s ∈ sources, s.HasMore m.stack t work) ∧
        (e = .mergedTooDeep ∨ ∃ names cs, e = .invalid names cs ∧ ∀ c ∈ cs, c.location.head? ≠ some (.name "discovery")) := by
  rcases gather_of_gives hm h with ⟨g, hg, hgives⟩ | ⟨hdeep, hmore⟩
  · rcases ofValue_of_discoveryIn hm.checks (hgives.discoveryIn_eq hm.checks) with
      ⟨s, hs, hdiscovery⟩ | ⟨cs, hcs, hlocations, key, hkey, hget⟩
    · refine .inl ⟨⟨s, g.sources⟩, Except.bind_eq_ok_iff.2 ⟨g, hg, ?_⟩, hdiscovery⟩
      simp only [hs]
    · obtain ⟨s, hs, f, hf, hfkey⟩ := exists_source_of_gather hg hget
      refine .inr ⟨.invalid g.sources cs, Except.bind_eq_error_iff.2 (.inr ⟨g, hg, ?_⟩), ⟨s, hs, f, hf, key, hkey, hfkey⟩,
        .inr ⟨g.sources, cs, rfl, hlocations⟩⟩
      simp only [hcs]
  · exact .inr ⟨.mergedTooDeep, Except.bind_eq_error_iff.2 (.inl hdeep), hmore, .inl rfl⟩

/-- For sources that give patterns, the lists that are loaded are the last whole list, or the default, followed by the last
extension. They are what the sources make of the default one by one exactly when the layers agree. Loading fails only when a source
has something else than patterns, and then it is not the patterns that are complained about. -/
theorem loadSources_patterns (h : List.Forall₂ (Source.Gives m.stack t work) sources ps) :
    (∀ r, loadSources m t work sources = .ok r →
      r.settings.discovery.accept = (Layer.merged (ps.map (·.accept))).list defaultAccept ∧
      r.settings.discovery.ignore = (Layer.merged (ps.map (·.ignore))).list defaultIgnore ∧
      (r.settings.discovery.accept = Layer.layered defaultAccept (ps.map (·.accept)) ↔ Layer.Agree (ps.map (·.accept))) ∧
      (r.settings.discovery.ignore = Layer.layered defaultIgnore (ps.map (·.ignore)) ↔ Layer.Agree (ps.map (·.ignore)))) ∧
    ∀ e, loadSources m t work sources = .error e → (∃ s ∈ sources, s.HasMore m.stack t work) ∧
      (e = .mergedTooDeep ∨ ∃ names cs, e = .invalid names cs ∧ ∀ c ∈ cs, c.location.head? ≠ some (.name "discovery")) := by
  rcases loadSources_of_gives hm h with ⟨r, hr, hdiscovery⟩ | ⟨e, he, hfailure⟩
  · refine ⟨fun r' hr' => ?_, fun e he => absurd (hr.symm.trans he) nofun⟩
    obtain rfl : r = r' := Except.ok.inj (hr.symm.trans hr')
    rw [hdiscovery]
    exact ⟨rfl, rfl, Layer.list_merged_eq_layered_iff _ _, Layer.list_merged_eq_layered_iff _ _⟩
  · refine ⟨fun r hr => absurd (hr.symm.trans he) nofun, fun e' he' => ?_⟩
    obtain rfl : e = e' := Except.error.inj (he.symm.trans he')
    exact hfailure

end

namespace LayersWitness

/-- A file of ASCII characters. -/
def file (s : String) : Entry := .file 0o644 ((Text.ofString s).map fun c => UInt8.ofNat c.toNat)

def root : Path := Path.ofText "/r"

/-- Two sources that extend the patterns to accept; for those to ignore, the lower gives the whole list and the upper extends it. -/
def tree : Tree :=
  ⟨[(["r"], .directory),
    (["r", "pyproject.toml"], file "[tool.codechecker.discovery]\nextend_accept = ['*.a']\nignore = ['x']\n"),
    (["r", ".codechecker.toml"], file "[discovery]\nextend_accept = ['*.b']\nextend_ignore = ['y']\n")]⟩

def project : Source := ⟨.section, root.child projectName, none⟩

def own : Source := ⟨.document, root.child documentName, none⟩

def patterns : List Patterns :=
  [⟨⟨none, some ["*.a"]⟩, ⟨some ["x"], none⟩⟩, ⟨⟨none, some ["*.b"]⟩, ⟨none, some ["y"]⟩⟩]

set_option maxRecDepth 4000 in
theorem load_project :
    project.load .usual tree [] = .ok [("discovery", .table [("extend_accept", texts ["*.a"]), ("ignore", texts ["x"])])] := by
  cbv

set_option maxRecDepth 4000 in
theorem load_own :
    own.load .usual tree [] = .ok [("discovery", .table [("extend_accept", texts ["*.b"]), ("extend_ignore", texts ["y"])])] := by
  cbv

theorem others_of_keys {d : Fields} (h : ∀ key ∈ d.keys, key ∈ patternKeys) (key : Text) (hkey : key ∉ patternKeys) :
    d.get? key = none :=
  (Fields.get?_eq_none_iff d key).2 fun hmem => hkey (h key hmem)

theorem sources_give : List.Forall₂ (Source.Gives .usual tree []) [project, own] patterns := by
  refine .cons ⟨_, load_project, ⟨?_, ⟨rfl, rfl⟩, ⟨rfl, rfl⟩, others_of_keys (by decide)⟩⟩
    (.cons ⟨_, load_own, ⟨?_, ⟨rfl, rfl⟩, ⟨rfl, rfl⟩, others_of_keys (by decide)⟩⟩ .nil)
  · rintro v ⟨⟩
    exact ⟨_, rfl⟩
  · rintro v ⟨⟩
    exact ⟨_, rfl⟩

def loaded : Loaded :=
  ⟨{ discovery := ⟨defaultAccept ++ [Text.ofString "*.b"], ["x", "y"]⟩ }, [project.description, own.description]⟩

set_option maxRecDepth 4000 in
theorem loadSources_tree : loadSources .usual tree [] [project, own] = .ok loaded := by
  cbv

end LayersWitness

open LayersWitness in
/-- Of two sources that extend a list, the loaded list has the extension of the upper one only. -/
theorem loadSources_drops_extension :
    sourcesFor tree [] root none = .ok [project, own] ∧ List.Forall₂ (Source.Gives .usual tree []) [project, own] patterns ∧
      ∃ r, loadSources .usual tree [] [project, own] = .ok r ∧
        r.settings.discovery.accept = defaultAccept ++ [Text.ofString "*.b"] ∧
        Layer.layered defaultAccept (patterns.map (·.accept)) = defaultAccept ++ [Text.ofString "*.a", Text.ofString "*.b"] ∧
        r.settings.discovery.accept ≠ Layer.layered defaultAccept (patterns.map (·.accept)) := by
  have hlayered : Layer.layered defaultAccept (patterns.map (·.accept))
      = defaultAccept ++ [Text.ofString "*.a", Text.ofString "*.b"] := by decide +kernel
  refine ⟨by cbv, sources_give, loaded, loadSources_tree, rfl, hlayered, ?_⟩
  rw [hlayered]
  exact fun h => absurd (congrArg List.length h) (by decide)

open LayersWitness in
/-- The whole list of a lower source with the extension of an upper one is what the two make one after the other. -/
theorem loadSources_extends_list :
    Means.usual.Lawful ∧ List.Forall₂ (Source.Gives .usual tree []) [project, own] patterns ∧
      ∃ r, loadSources .usual tree [] [project, own] = .ok r ∧
        r.settings.discovery.ignore = Layer.layered defaultIgnore (patterns.map (·.ignore)) := by
  have hagree : Layer.Agree ([] ++ [⟨some ["x"], none⟩] ++ [⟨none, some ["y"]⟩]) :=
    Layer.forall_suffix_concat.2
      ⟨Layer.forall_suffix_concat.2 ⟨Layer.forall_suffix_nil, fun hextends => absurd rfl hextends⟩,
        fun _ => iff_of_false Layer.not_overridden_nil Layer.not_replaced_nil⟩
  obtain ⟨hlists, -⟩ := loadSources_patterns Means.lawful_usual sources_give
  exact ⟨Means.lawful_usual, sources_give, loaded, loadSources_tree, (hlists loaded loadSources_tree).2.2.2.2 hagree⟩

end SourceTidy.Config
