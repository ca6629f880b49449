import SourceTidy.Proofs.Config.Gather
import SourceTidy.Proofs.Config.Settings
import SourceTidy.Proofs.Text.RoundTrip
import SourceTidy.Proofs.Tree.Descent

/-!
# Failures to load settings

Loading answers for what is wrong with the settings: its own failures are those that `LoadError.isOwn` tells. A failure of
something that it uses can come through instead (`Escapes`). `escapes_load_iff` says when, in terms of the tree and of the room
that there is (`Slips`), whatever checks the values: the system does not take a path, a document that is reached is not UTF-8 or
goes beyond what the reader of TOML can take, tables are nested too deeply to be laid over each other, or a list that is to be
extended, or what extends it, holds no items.
-/

namespace SourceTidy.Config

/-! ## Failures that come through -/

section Escapes

variable {α β : Type}

/-- Whether an attempt fails, and not as something that loading settings answers for. -/
def Escapes (r : Except LoadError α) : Prop := ∃ e, r = .error e ∧ e.isOwn = false

theorem not_escapes_ok (a : α) : ¬ Escapes (.ok a) := nofun

/-- An attempt that no failure escapes from gives a result or a failure of its own. -/
theorem not_escapes_iff (r : Except LoadError α) :
    ¬ Escapes r ↔ (∃ a, r = .ok a) ∨ ∃ e, r = .error e ∧ e.isOwn = true := by
  cases r with
  | ok a => simp [Escapes]
  | error e => simp [Escapes]

/-- A failure escapes from two attempts in a row when it escapes from the first, or from the second once there is one. -/
theorem escapes_bind_iff (x : Except LoadError α) (f : α → Except LoadError β) :
    Escapes (x >>= f) ↔ Escapes x ∨ ∃ a, x = .ok a ∧ Escapes (f a) := by
  cases x with
  | ok a => simp [Escapes, bind, Except.bind]
  | error e => simp [Escapes, bind, Except.bind]

/-- A failure escapes from attempts in a row when it escapes from one of them, and those before it go well. -/
theorem escapes_foldlM_iff (f : β → α → Except LoadError β) (as : List α) (b : β) :
    Escapes (as.foldlM f b) ↔
      ∃ before a after b', as = before ++ a :: after ∧ before.foldlM f b = .ok b' ∧ Escapes (f b' a) := by
  induction as generalizing b with
  | nil => simp [not_escapes_ok, pure, Except.pure]
  | cons a as ih =>
    rw [List.foldlM_cons, escapes_bind_iff]
    constructor
    · rintro (h | ⟨b₁, hb₁, h⟩)
      · exact ⟨[], a, as, b, rfl, rfl, h⟩
      · obtain ⟨before, a', after, b', rfl, hbefore, h⟩ := (ih b₁).1 h
        exact ⟨a :: before, a', after, b', rfl, Except.bind_eq_ok_iff.2 ⟨b₁, hb₁, hbefore⟩, h⟩
    · rintro ⟨before, a', after, b', hsplit, hbefore, h⟩
      cases before with
      | nil =>
        obtain ⟨rfl, rfl⟩ := List.cons.inj hsplit
        cases hbefore
        exact .inl h
      | cons a₀ before =>
        obtain ⟨rfl, rfl⟩ := List.cons.inj hsplit
        obtain ⟨b₁, hb₁, hbefore⟩ := Except.bind_eq_ok_iff.1 hbefore
        exact .inr ⟨b₁, hb₁, (ih b₁).2 ⟨before, a', after, b', rfl, hbefore, h⟩⟩

/-- Failures that loading does not answer for escape as they are. -/
theorem escapes_mapError_iff {ε : Type} {f : ε → LoadError} (hf : ∀ e, (f e).isOwn = false) (x : Except ε α) :
    Escapes (x.mapError f) ↔ ∃ e, x = .error e := by
  cases x with
  | ok a => simp [Escapes]
  | error e => simp [Escapes, hf]

theorem not_escapes_mapError {ε : Type} {f : ε → LoadError} (hf : ∀ e, (f e).isOwn = true) (x : Except ε α) :
    ¬ Escapes (x.mapError f) := by
  cases x with
  | ok a => simp [Escapes]
  | error e => simp [Escapes, hf]

end Escapes

/-! ## Sources -/

/-- Whether the system does not take a path: the path, or a name on its way, is too long. -/
def TooLong (t : Tree) (work : Location) (p : Path) : Prop := t.entryAt work p = .error .nameTooLong

/-- Whether some bytes are UTF-8: those of a text of scalar values. -/
def IsUtf8 (bytes : Bytes) : Prop := ∃ text : Text, (∀ c ∈ text, c.isSurrogate = false) ∧ text.flatMap Utf8.bytesOf = bytes

/-- Whether a document goes beyond what the reader of TOML can take: an integer has too many digits, or arrays and tables are nested
too deeply. -/
def BeyondReader (stack : Toml.Stack) (document : Text) : Prop :=
  (∃ count, Toml.parse stack document = .error (.tooManyDigits count)) ∨ Toml.parse stack document = .error .tooDeep

/-- What is wrong with a source that cannot be read, when loading does not answer for it. -/
inductive Source.Slips (stack : Toml.Stack) (t : Tree) (work : Location) (s : Source) : Prop
  | path (h : TooLong t work s.path)
  | bytes {mode : Nat} {bytes : Bytes} (hentry : t.entryAt work s.path = .ok (.file mode bytes)) (hbytes : ¬ IsUtf8 bytes)
  | limits {mode : Nat} {bytes : Bytes} {document : Text} (hentry : t.entryAt work s.path = .ok (.file mode bytes))
      (hdocument : Utf8.decodeStrict bytes = .ok document) (hbeyond : BeyondReader stack document)

theorem exists_decodeStrict_eq_error_iff (bytes : Bytes) : (∃ e, Utf8.decodeStrict bytes = .error e) ↔ ¬ IsUtf8 bytes := by
  simp only [IsUtf8, ← Utf8.decodeStrict_eq_ok_iff]
  cases Utf8.decodeStrict bytes <;> simp

variable {m : Means} {stack : Toml.Stack} {t : Tree} {work : Location}

theorem read_eq_ok_iff {p : Path} {bytes : Bytes} :
    t.read work p = .ok bytes ↔ ∃ mode, t.entryAt work p = .ok (.file mode bytes) := by
  rw [Tree.read, Except.bind_eq_ok_iff]
  constructor
  · rintro ⟨e, he, h⟩
    split at h
    · cases h
      exact ⟨_, he⟩
    · cases h
    · cases h
  · rintro ⟨mode, h⟩
    exact ⟨_, h, rfl⟩

theorem pathExists_of_entryAt {p : Path} {e : Entry} (h : t.entryAt work p = .ok e) : t.pathExists work p = .ok true := by
  rw [Tree.pathExists, Tree.entryAt?, h]
  rfl

theorem exists_pathExists_eq_error_iff {p : Path} : (∃ f, t.pathExists work p = .error f) ↔ TooLong t work p := by
  simp only [Tree.pathExists, Except.map_eq_error_iff, Tree.entryAt?_eq_error_iff, exists_and_left, exists_eq, and_true]
  exact Iff.rfl

/-- Reading a document of TOML, apart from the failures that its place is named in. -/
theorem escapes_parse_iff {malformed : Toml.Problem → Text → LoadError}
    (hmalformed : ∀ p rest, (malformed p rest).isOwn = true) (document : Text) :
    Escapes ((Toml.parse stack document).mapError fun
      | .broken problem rest => malformed problem rest
      | .tooManyDigits count => .tooManyDigits count
      | .tooDeep => .tooDeep) ↔ BeyondReader stack document := by
  unfold BeyondReader Escapes
  cases Toml.parse stack document with
  | ok f => simp
  | error e =>
    cases e with
    | broken problem rest => simp [hmalformed]
    | tooManyDigits count => simp [LoadError.isOwn]
    | tooDeep => simp [LoadError.isOwn]

theorem escapes_readTable_iff (s : Source) : Escapes (Source.readTable stack t work s.path) ↔ s.Slips stack t work := by
  unfold Source.readTable
  rw [escapes_bind_iff, escapes_mapError_iff (fun _ => rfl), exists_pathExists_eq_error_iff]
  constructor
  · rintro (hpath | ⟨found, hfound, h⟩)
    · exact .path hpath
    · split at h
      · exact absurd h (not_escapes_ok _)
      · rw [escapes_bind_iff] at h
        rcases h with h | ⟨bytes, hbytes, h⟩
        · exact absurd h (not_escapes_mapError (fun _ => rfl) _)
        · obtain ⟨mode, hentry⟩ := read_eq_ok_iff.1 (Except.mapError_eq_ok_iff.1 hbytes)
          rw [escapes_bind_iff, escapes_mapError_iff (fun _ => rfl), exists_decodeStrict_eq_error_iff] at h
          rcases h with h | ⟨document, hdocument, h⟩
          · exact .bytes hentry h
          · exact .limits hentry (Except.mapError_eq_ok_iff.1 hdocument) ((escapes_parse_iff (fun _ _ => rfl) document).1 h)
  · intro h
    cases h with
    | path hpath => exact .inl hpath
    | bytes hentry hbytes =>
      refine .inr ⟨true, Except.mapError_eq_ok_iff.2 (pathExists_of_entryAt hentry), ?_⟩
      refine (escapes_bind_iff _ _).2 (.inr ⟨_, Except.mapError_eq_ok_iff.2 (read_eq_ok_iff.2 ⟨_, hentry⟩), ?_⟩)
      refine (escapes_bind_iff _ _).2 (.inl ?_)
      exact (escapes_mapError_iff (fun _ => rfl) _).2 ((exists_decodeStrict_eq_error_iff _).2 hbytes)
    | limits hentry hdocument hbeyond =>
      refine .inr ⟨true, Except.mapError_eq_ok_iff.2 (pathExists_of_entryAt hentry), ?_⟩
      refine (escapes_bind_iff _ _).2 (.inr ⟨_, Except.mapError_eq_ok_iff.2 (read_eq_ok_iff.2 ⟨_, hentry⟩), ?_⟩)
      refine (escapes_bind_iff _ _).2 (.inr ⟨_, Except.mapError_eq_ok_iff.2 hdocument, ?_⟩)
      exact (escapes_parse_iff (fun _ _ => rfl) _).2 hbeyond

theorem not_escapes_sectionOf (s : Source) (document : Fields) : ¬ Escapes (s.sectionOf document) := by
  unfold Source.sectionOf
  split
  · split
    · exact not_escapes_ok _
    · simp [Escapes, LoadError.isOwn]
    · exact not_escapes_ok _
  · exact not_escapes_ok _

/-- A failure escapes from a source exactly when it slips. -/
theorem escapes_load_source_iff (s : Source) : Escapes (s.load stack t work) ↔ s.Slips stack t work := by
  rw [← escapes_readTable_iff, Source.load]
  split
  · exact Iff.rfl
  · rw [escapes_bind_iff]
    simp [not_escapes_sectionOf]

/-- A failure escapes from adding a source when the source slips, or when there is no room for its table. -/
theorem escapes_add_iff (g : Gathered) (s : Source) :
    Escapes (g.add m t work s) ↔
      s.Slips m.stack t work ∨ ∃ f, s.load m.stack t work = .ok f ∧ m.mergeRoom + 1 < Fields.overlap g.table f := by
  rw [← escapes_load_source_iff]
  cases hload : s.load m.stack t work with
  | error e => simp [Gathered.add, hload, escapes_bind_iff]
  | ok f =>
    simp only [Except.ok.injEq, exists_eq_left', or_iff_right (not_escapes_ok f)]
    rcases Gathered.add_of_load hload g with ⟨hroom, g', hg', -⟩ | ⟨hdeep, herror⟩
    · rw [hg']
      exact iff_of_false (not_escapes_ok g') (Nat.not_lt.2 hroom)
    · rw [herror]
      exact iff_of_true ⟨_, rfl, rfl⟩ hdeep

/-! ## Loading -/

theorem escapes_loadSources_iff (sources : List Source) :
    Escapes (loadSources m t work sources) ↔
      Escapes (gather m t work sources) ∨ ∃ g, gather m t work sources = .ok g ∧
        ∃ d, g.table.get? "discovery" = some (.table d) ∧ (CannotExtend d "accept" ∨ CannotExtend d "ignore") := by
  rw [loadSources, escapes_bind_iff]
  refine or_congr_right (exists_congr fun g => and_congr_right fun _ => ?_)
  rw [← exists_discoveryIn_eq_error_iff m.checks]
  constructor
  · intro h
    split at h
    · exact absurd h (not_escapes_ok _)
    · rename_i e he
      exact ⟨e, ofValue_eq_notIterable_iff.1 he⟩
    · simp [Escapes, LoadError.isOwn] at h
  · rintro ⟨e, he⟩
    rw [ofValue_eq_notIterable_iff.2 he]
    exact ⟨_, rfl, rfl⟩

theorem escapes_isFile_iff (p : Path) : Escapes (isFile t work p) ↔ TooLong t work p := by
  rw [isFile, escapes_mapError_iff (fun _ => rfl)]
  simp only [Tree.isFile, Except.map_eq_error_iff, Tree.entryAt?_eq_error_iff, exists_and_left, exists_eq, and_true]
  exact Iff.rfl

variable (target : Path) (explicit : Option Path)

/-- What makes a failure escape from loading the settings for a target. -/
inductive Slips (m : Means) (t : Tree) (work : Location) (target : Path) (explicit : Option Path) : Prop
  | target (h : TooLong t work target)
  | explicit {p : Path} (hp : explicit = some p) (h : TooLong t work p)
  /-- A source cannot be read, and those below it can be gathered. -/
  | source {below : List Source} {s : Source} {above : List Source} {g : Gathered}
      (hsources : sourcesFor t work target explicit = .ok (below ++ s :: above)) (hbelow : gather m t work below = .ok g)
      (hs : s.Slips m.stack t work)
  /-- The tables of a source and those of the sources below it are nested too deeply to be laid over each other. -/
  | merge {below : List Source} {s : Source} {above : List Source} {g : Gathered} {f : Fields}
      (hsources : sourcesFor t work target explicit = .ok (below ++ s :: above)) (hbelow : gather m t work below = .ok g)
      (hload : s.load m.stack t work = .ok f) (hdeep : m.mergeRoom + 1 < Fields.overlap g.table f)
  /-- All sources can be gathered, and then a list in the table for discovery cannot be extended. -/
  | values {sources : List Source} {g : Gathered} {d : List (Text × Value)}
      (hsources : sourcesFor t work target explicit = .ok sources) (hgather : gather m t work sources = .ok g)
      (hd : g.table.get? "discovery" = some (.table d)) (hcannot : CannotExtend d "accept" ∨ CannotExtend d "ignore")

theorem escapes_directoryOf_iff : Escapes (directoryOf t work target) ↔ TooLong t work target := by
  rw [directoryOf, escapes_bind_iff, escapes_isFile_iff]
  exact or_iff_left fun ⟨_, _, h⟩ => not_escapes_ok _ h

/-- There is a directory to look in, unless the system does not take the target. -/
theorem exists_directoryOf_eq_ok (h : ¬ TooLong t work target) : ∃ directory, directoryOf t work target = .ok directory := by
  cases hfile : t.isFile work target with
  | ok b => exact ⟨_, Except.bind_eq_ok_iff.2 ⟨b, Except.mapError_eq_ok_iff.2 hfile, rfl⟩⟩
  | error f => exact absurd (Tree.entryAt?_eq_error_iff.1 (Except.map_eq_error_iff.1 hfile)).1 h

theorem escapes_sourcesFor_iff :
    Escapes (sourcesFor t work target explicit) ↔ TooLong t work target ∨ ∃ p, explicit = some p ∧ TooLong t work p := by
  rw [sourcesFor, escapes_bind_iff, escapes_directoryOf_iff]
  cases explicit with
  | none => simp [not_escapes_ok, pure, Except.pure]
  | some p =>
    constructor
    · rintro (h | ⟨directory, -, h⟩)
      · exact .inl h
      · rw [escapes_bind_iff, escapes_isFile_iff] at h
        rcases h with h | ⟨found, -, h⟩
        · exact .inr ⟨p, rfl, h⟩
        · split at h
          · exact absurd h (not_escapes_ok _)
          · simp [Escapes, LoadError.isOwn] at h
    · rintro (h | ⟨_, ⟨⟩, h⟩)
      · exact .inl h
      · refine or_iff_not_imp_left.2 fun htarget => ?_
        obtain ⟨directory, hdirectory⟩ := exists_directoryOf_eq_ok target htarget
        exact ⟨directory, hdirectory, (escapes_bind_iff _ _).2 (.inl ((escapes_isFile_iff p).2 h))⟩

/-- A failure escapes from loading settings exactly when one of the slips happens. -/
theorem escapes_load_iff : Escapes (load m t work target explicit) ↔ Slips m t work target explicit := by
  rw [load, escapes_bind_iff, escapes_sourcesFor_iff]
  simp only [escapes_loadSources_iff, gather, escapes_foldlM_iff, escapes_add_iff]
  constructor
  · rintro ((h | ⟨p, hp, h⟩) |
      ⟨sources, hsources, ⟨below, s, above, g, rfl, hbelow, h | ⟨f, hload, hdeep⟩⟩ | ⟨g, hgather, d, hd, hcannot⟩⟩)
    · exact .target h
    · exact .explicit hp h
    · exact .source hsources hbelow h
    · exact .merge hsources hbelow hload hdeep
    · exact .values hsources hgather hd hcannot
  · intro h
    cases h with
    | target h => exact .inl (.inl h)
    | explicit hp h => exact .inl (.inr ⟨_, hp, h⟩)
    | source hsources hbelow hs => exact .inr ⟨_, hsources, .inl ⟨_, _, _, _, rfl, hbelow, .inl hs⟩⟩
    | merge hsources hbelow hload hdeep =>
      exact .inr ⟨_, hsources, .inl ⟨_, _, _, _, rfl, hbelow, .inr ⟨_, hload, hdeep⟩⟩⟩
    | values hsources hgather hd hcannot => exact .inr ⟨_, hsources, .inr ⟨_, hgather, _, hd, hcannot⟩⟩

end SourceTidy.Config
