import SourceTidy.Proofs.Run.Agreement
import SourceTidy.Proofs.Task.Stable
import SourceTidy.Proofs.Text.Utf8
import SourceTidy.Proofs.Tree.Replace

/-!
# Runs over what a run has left

When a run with fixes leaves a file fine, a second run over it should have nothing to do. This is so for all contents but
three kinds (`IsFinal`): the corrections take away one byte order mark and one closing tag only, and blanks between a
carriage return and a line feed are taken away together with those before the line end that they hide, but not the blanks
before that. All checks that have passed once pass again.
-/

namespace SourceTidy.Run

open SourceTidy.Task (Builtin isEndBlank body tidyBlanks)
open SourceTidy.Config (TaskOptions)

/-! ## The tasks that always run -/

/-- The tasks that run before trailing blanks are taken away, when no option is given. -/
def early : List Builtin :=
  [.controlCharacters, .byteOrderMark, .encoding, .docComments, .escapes, .closingTag, .json, .yamlIndentation]

/-- The tasks that run after that. -/
def late : List Builtin := [.tabIndentation, .phpIndentation, .innerTabs]

/-- The tasks of a list that look at files of a name. -/
def looking (name : Text) (bs : List Builtin) : List Builtin := bs.filter fun b => b.task.looksAt name

theorem looking_cons (name : Text) (b : Builtin) (bs : List Builtin) :
    looking name (b :: bs) = if b.task.looksAt name then b :: looking name bs else looking name bs := by
  rw [looking, looking, List.filter_cons]

theorem lookingAt_default (name : Text) :
    lookingAt {} name = looking name early ++ .trailingBlanks :: looking name late := by
  have hwanted : (Builtin.all.filter fun b => !(({} : TaskOptions).skip.contains b.name) && b.isWanted {}) =
      early ++ .trailingBlanks :: late := by decide
  rw [lookingAt, hwanted, List.filter_append, ← looking, ← looking, looking_cons]
  rfl

/-- The content that trailing blanks are taken from: without a byte order mark and, in a PHP source, without a closing
tag. -/
def opened (name t : Text) : Text :=
  if Builtin.closingTag.task.looksAt name then (Task.fixClosingTag (Task.fixByteOrderMark t).2).2
  else (Task.fixByteOrderMark t).2

section Answers

variable (php : Php.Tokenizer) (c : Task.Context) (name : Text)

theorem answerAll_looking_cons (b : Builtin) (bs : List Builtin) (t : Text) :
    Builtin.answerAll php c (looking name (b :: bs)) t =
      Builtin.answerAll php c (looking name bs)
        (if b.task.looksAt name then (b.taskWith php.tokens).answer c t else t) := by
  rw [looking_cons]
  split
  · rw [Builtin.answerAll_cons]
  · rfl

theorem answerAll_looking_of_check {b : Builtin} (hb : b.correction? php = none) (bs : List Builtin) (t : Text) :
    Builtin.answerAll php c (looking name (b :: bs)) t = Builtin.answerAll php c (looking name bs) t := by
  rw [answerAll_looking_cons, (Builtin.of_correction?_eq_none hb c t).1, ite_self]

theorem answerAll_mark (bs : List Builtin) (t : Text) :
    Builtin.answerAll php c (looking name (.controlCharacters :: .byteOrderMark :: bs)) t =
      Builtin.answerAll php c (looking name bs) (Task.fixByteOrderMark t).2 := by
  rw [answerAll_looking_of_check php c name rfl, answerAll_looking_cons]
  rfl

theorem answerAll_opened (bs : List Builtin) (t : Text) :
    Builtin.answerAll php c (looking name
      (.controlCharacters :: .byteOrderMark :: .encoding :: .docComments :: .escapes :: .closingTag :: bs)) t =
        Builtin.answerAll php c (looking name bs) (opened name t) := by
  rw [answerAll_mark, answerAll_looking_of_check php c name rfl, answerAll_looking_of_check php c name rfl,
    answerAll_looking_of_check php c name rfl, answerAll_looking_cons]
  rfl

theorem answerAll_early (t : Text) : Builtin.answerAll php c (looking name early) t = opened name t := by
  rw [early, answerAll_opened, answerAll_looking_of_check php c name rfl, answerAll_looking_of_check php c name rfl]
  rfl

/-- After trailing blanks are taken away, the tasks only look. -/
theorem correction?_of_mem_late {b : Builtin} (hb : b ∈ looking name late) : b.correction? php = none := by
  have hmem : b ∈ late := (List.mem_filter.1 hb).1
  simp only [late, List.mem_cons, List.not_mem_nil, or_false] at hmem
  rcases hmem with rfl | rfl | rfl <;> rfl

theorem answerAll_of_subset_late {bs : List Builtin} (hbs : bs ⊆ looking name late) (t : Text) :
    Builtin.answerAll php c bs t = t :=
  Builtin.answerAll_eq_self php c fun _ hb =>
    (Builtin.of_correction?_eq_none (correction?_of_mem_late php name (hbs hb)) c t).1

/-- What the tasks that always run make of a text. -/
theorem answerAll_default (t : Text) : Builtin.answerAll php c (lookingAt {} name) t = tidyBlanks (opened name t) := by
  rw [lookingAt_default, Builtin.answerAll_append, answerAll_early, Builtin.answerAll_cons,
    answerAll_of_subset_late php c name (List.Subset.refl _)]
  exact Task.fixTrailingBlanks_snd (opened name t)

end Answers

/-! ## What a pass without errors has seen -/

section Passes

variable (php : Php.Tokenizer) (c : Task.Context) {p : Pass} (hp : p.hasError = false)
include hp

/-- In a pass without errors nothing goes wrong at any task, given what those before it have made. -/
theorem Pass.goesWrong_of_through {before after : List Builtin} {b : Builtin}
    (h : (through php (before ++ b :: after) c p).hasError = false) :
    (b.taskWith php.tokens).goesWrong c (Builtin.answerAll php c before p.content) = false := by
  have hsplit : through php (before ++ b :: after) c p =
      through php after c ((through php before c p).step c (b.taskWith php.tokens)) := by
    simp only [through, List.map_append, List.foldl_append, List.map_cons, List.foldl_cons]
  rw [hsplit] at h
  have hstep : ((through php before c p).step c (b.taskWith php.tokens)).hasError = false := by
    rw [← Bool.not_eq_true]
    intro herror
    have := (foldl_of_hasError c _ (keepsTree_tasks php after) _ herror).1
    rw [through, this] at h
    cases h
  rw [step_eq c _ (Builtin.keepsTree php b), Bool.or_eq_false_iff] at hstep
  rw [← content_of_through php before c hp hstep.1]
  exact hstep.2

end Passes

/-! ## What is left for a second run -/

/-- A content of a file with a name that one run is enough for. -/
structure IsFinal (name t : Text) : Prop where
  /-- There was not more than one byte order mark. -/
  mark : (body (opened name t)).head? ≠ some Task.byteOrderMark
  /-- A PHP source did not end with more than one closing tag. -/
  tag : Builtin.closingTag.task.looksAt name = true → ¬ Task.closingTag <:+ body (opened name t)
  /-- No blanks kept a carriage return from a line feed. -/
  lineEnds : ¬ Task.HidesLineEnd (body (opened name t))

/-- What a pass without errors over a content has found in order. -/
structure Passed (php : Php.Tokenizer) (c : Task.Context) (name t : Text) : Prop where
  control : Task.checkControlCharacters t = []
  encoding : Task.checkEncoding (Task.fixByteOrderMark t).2 = []
  json : Builtin.json.task.looksAt name = true → Json.check (opened name t) = .ok ()
  yaml : Builtin.yamlIndentation.task.looksAt name = true → Task.checkYamlIndentation (opened name t) = []
  late : ∀ b ∈ looking name late, (b.taskWith php.tokens).goesWrong c (tidyBlanks (opened name t)) = false

theorem passed_of_through (php : Php.Tokenizer) (c : Task.Context) (name : Text) {p : Pass} (hp : p.hasError = false)
    (h : (Pass.through php (lookingAt {} name) c p).hasError = false) : Passed php c name p.content := by
  rw [lookingAt_default] at h
  have hgoes (before after : List Builtin) (b : Builtin) (hlist : early = before ++ b :: after)
      (hlooks : b.task.looksAt name = true) :
      (b.taskWith php.tokens).goesWrong c (Builtin.answerAll php c (looking name before) p.content) = false := by
    have hsplit : looking name early ++ .trailingBlanks :: looking name late =
        looking name before ++ b :: (looking name after ++ .trailingBlanks :: looking name late) := by
      rw [hlist, looking, List.filter_append, ← looking, ← looking, looking_cons, if_pos hlooks, List.append_assoc]
      rfl
    rw [hsplit] at h
    exact Pass.goesWrong_of_through php c hp h
  have hcontrol := hgoes [] _ .controlCharacters rfl rfl
  have hencoding := hgoes [.controlCharacters, .byteOrderMark] _ .encoding rfl rfl
  rw [answerAll_mark] at hencoding
  rw [Builtin.goesWrong_of_check php rfl] at hcontrol hencoding
  refine ⟨hcontrol.resolve_left (by decide), hencoding.resolve_left (by decide), fun hlooks => ?_, fun hlooks => ?_,
    fun b hb => ?_⟩
  · have hjson := hgoes [.controlCharacters, .byteOrderMark, .encoding, .docComments, .escapes, .closingTag] _ .json rfl
      hlooks
    rwa [answerAll_opened, Builtin.goesWrong_json] at hjson
  · have hyaml := hgoes [.controlCharacters, .byteOrderMark, .encoding, .docComments, .escapes, .closingTag, .json] _
      .yamlIndentation rfl hlooks
    rw [answerAll_opened, answerAll_looking_of_check php c name rfl, Builtin.goesWrong_of_check php rfl] at hyaml
    exact hyaml.resolve_left (by decide)
  · obtain ⟨before, after, hlist⟩ := List.append_of_mem hb
    have hsplit : looking name early ++ .trailingBlanks :: looking name late =
        (looking name early ++ .trailingBlanks :: before) ++ b :: after := by
      rw [hlist, List.append_assoc]
      rfl
    rw [hsplit] at h
    have hlate := Pass.goesWrong_of_through php c hp h
    have hbefore : before ⊆ looking name late := hlist ▸ List.subset_append_left before _
    have htidy : (Builtin.trailingBlanks.taskWith php.tokens).answer c (opened name p.content) =
        tidyBlanks (opened name p.content) := Task.fixTrailingBlanks_snd _
    rwa [Builtin.answerAll_append, answerAll_early, Builtin.answerAll_cons,
      answerAll_of_subset_late php c name hbefore, htidy] at hlate

theorem fixByteOrderMark_subset (t : Text) : (Task.fixByteOrderMark t).2 ⊆ t := by
  cases t with
  | nil => exact List.Subset.refl _
  | cons c rest =>
    rw [Task.fixByteOrderMark_cons]
    split
    · exact List.subset_cons_self c rest
    · exact List.Subset.refl _

theorem fixClosingTag_subset (t : Text) : (Task.fixClosingTag t).2 ⊆ t := by
  rcases Task.fixClosingTag_eq t with ⟨front, hfront, h⟩ | ⟨-, h⟩
  · rw [h]
    intro c hc
    exact (Text.dropRightWhile_sublist isEndBlank t).subset (hfront ▸ List.mem_append_left _ hc)
  · rw [h]
    exact List.Subset.refl _

theorem opened_subset (name t : Text) : opened name t ⊆ (Task.fixByteOrderMark t).2 := by
  unfold opened
  split
  · exact fixClosingTag_subset _
  · exact List.Subset.refl _

namespace Passed

variable {php : Php.Tokenizer} {c : Task.Context} {name t : Text} (h : Passed php c name t)
include h

theorem control_opened : Task.checkControlCharacters (opened name t) = [] :=
  Task.atFirst_of_subset _ _ _ (List.Subset.trans (opened_subset name t) (fixByteOrderMark_subset t)) h.control

theorem control_tidied : Task.checkControlCharacters (tidyBlanks (opened name t)) = [] :=
  Task.checkControlCharacters_tidyBlanks h.control_opened

theorem encoding_tidied : Task.checkEncoding (tidyBlanks (opened name t)) = [] :=
  Task.checkEncoding_tidyBlanks (Task.atFirst_of_subset _ _ _ (opened_subset name t) h.encoding)

theorem json_tidied (hlooks : Builtin.json.task.looksAt name = true) :
    Json.check (tidyBlanks (opened name t)) = .ok () :=
  Task.check_tidyBlanks ((Task.atFirst_eq_nil_iff _ _ _ _).1 h.control_opened) (h.json hlooks)

/-- A content that was read from bytes has no surrogates left. -/
theorem noSurrogate_tidied {bytes : Bytes} (ht : t = Utf8.decode bytes) :
    ∀ c ∈ tidyBlanks (opened name t), c.isSurrogate = false := by
  intro d hd
  have hvalid := (Task.atFirst_eq_nil_iff _ _ _ _).1 h.encoding_tidied d hd
  rcases Task.mem_of_mem_tidyBlanks hd with hd | rfl
  · have hmem := fixByteOrderMark_subset t (opened_subset name t hd)
    have := Utf8.isEncodable_of_mem_decode (ht ▸ hmem)
    rw [Utf8.isEncodable, hvalid, Bool.or_false, Bool.not_eq_true'] at this
    exact this
  · decide

end Passed

theorem fixByteOrderMark_eq_iff (t : Text) : (Task.fixByteOrderMark t).2 = t ↔ t.head? ≠ some Task.byteOrderMark := by
  cases t with
  | nil => exact iff_of_true rfl (by simp)
  | cons c rest =>
    rw [Task.fixByteOrderMark_cons, List.head?_cons, ne_eq, Option.some.injEq]
    split
    · rename_i hc
      refine iff_of_false ?_ fun h => h hc
      exact List.ne_cons_self
    · rename_i hc
      exact iff_of_true rfl hc

theorem fixClosingTag_eq_iff (t : Text) : (Task.fixClosingTag t).2 = t ↔ ¬ Task.closingTag <:+ body t := by
  rcases Task.fixClosingTag_eq t with ⟨front, hfront, h⟩ | ⟨hno, h⟩
  · rw [h]
    refine iff_of_false ?_ fun hno => hno ⟨front, hfront.symm⟩
    intro heq
    have := (Text.dropRightWhile_sublist isEndBlank t).length_le
    rw [hfront, List.length_append] at this
    simp only at heq
    rw [heq] at this
    exact absurd this (by simp [Task.closingTag, Text.ofString])
  · rw [h]
    exact iff_of_true rfl hno

/-- Nothing goes wrong without fixes at what a pass without errors has made of a content, if and only if one run is enough
for the content. -/
theorem right_tidied_iff {php : Php.Tokenizer} {path name t : Text} (h : Passed php ⟨path, false⟩ name t) :
    (∀ b ∈ lookingAt {} name, (b.taskWith php.tokens).goesWrong ⟨path, true⟩ (tidyBlanks (opened name t)) = false) ↔
      IsFinal name t := by
  have hmark : (Task.fixByteOrderMark (tidyBlanks (opened name t))).2 = tidyBlanks (opened name t) ↔
      (body (opened name t)).head? ≠ some Task.byteOrderMark := by
    rw [fixByteOrderMark_eq_iff, ne_eq, Task.head?_tidyBlanks_eq_iff (by decide)]
  have htag : (Task.fixClosingTag (tidyBlanks (opened name t))).2 = tidyBlanks (opened name t) ↔
      ¬ Task.closingTag <:+ body (opened name t) := by
    rw [fixClosingTag_eq_iff, Task.closingTag_suffix_body_tidyBlanks_iff]
  have hlineEnds : (Task.fixTrailingBlanks (tidyBlanks (opened name t))).2 = tidyBlanks (opened name t) ↔
      ¬ Task.HidesLineEnd (body (opened name t)) := by
    rw [Task.fixTrailingBlanks_snd, Task.tidyBlanks_tidyBlanks_iff]
  rw [lookingAt_default]
  constructor
  · intro hright
    have hearly {b : Builtin} (hb : b ∈ early) (hlooks : b.task.looksAt name = true) :=
      hright b (List.mem_append_left _ (List.mem_filter.2 ⟨hb, hlooks⟩))
    have hblanks := hright .trailingBlanks (List.mem_append_right _ List.mem_cons_self)
    refine ⟨hmark.1 ?_, fun hlooks => htag.1 ?_, hlineEnds.1 ?_⟩
    · exact (Builtin.goesWrong_readOnly_of_correction php rfl path _).1 (hearly (b := .byteOrderMark) (by decide) rfl)
    · exact (Builtin.goesWrong_readOnly_of_correction php rfl path _).1 (hearly (b := .closingTag) (by decide) hlooks)
    · exact (Builtin.goesWrong_readOnly_of_correction php rfl path _).1 hblanks
  · intro hfinal b hb
    rcases List.mem_append.1 hb with hb | hb
    · obtain ⟨hb, hlooks⟩ := List.mem_filter.1 hb
      simp only [early, List.mem_cons, List.not_mem_nil, or_false] at hb
      rcases hb with rfl | rfl | rfl | rfl | rfl | rfl | rfl | rfl
      · exact (Builtin.goesWrong_of_check php rfl _ _).2 (.inr h.control_tidied)
      · exact (Builtin.goesWrong_readOnly_of_correction php rfl path _).2 (hmark.2 hfinal.mark)
      · exact (Builtin.goesWrong_of_check php rfl _ _).2 (.inr h.encoding_tidied)
      · exact (Builtin.goesWrong_of_check php rfl _ _).2 (.inl rfl)
      · exact (Builtin.goesWrong_of_check php rfl _ _).2 (.inl rfl)
      · exact (Builtin.goesWrong_readOnly_of_correction php rfl path _).2 (htag.2 (hfinal.tag hlooks))
      · exact (Builtin.goesWrong_json php _ _).2 (h.json_tidied hlooks)
      · exact (Builtin.goesWrong_of_check php rfl _ _).2
          (.inr (Task.checkYamlIndentation_tidyBlanks (h.yaml hlooks)))
    · rcases List.mem_cons.1 hb with rfl | hb
      · exact (Builtin.goesWrong_readOnly_of_correction php rfl path _).2 (hlineEnds.2 hfinal.lineEnds)
      · exact (Builtin.goesWrong_readOnly_eq_false_iff php b path _ ⟨path, true⟩).2
          ⟨h.late b hb, (Builtin.of_correction?_eq_none (correction?_of_mem_late php name hb) _ _).1⟩

/-! ## The second run -/

section Second

variable (php : Php.Tokenizer) (work : Location) (r : Record) (w w₁ : World) (result : Result) (bytes : Bytes)

/-- A file that is fine after a run has been tidied, and can be read again. -/
theorem read_of_process (ht : w.tree.WellFormed) (hr : r.path.IsPlain) (hread : w.tree.read work r.path = .ok bytes)
    (hfirst : (Job.builtin php {} work false).process r w = .ok (w₁, result)) (hok : result.ok = true) :
    Passed php ⟨r.relative, false⟩ r.path.name (Utf8.decode bytes) ∧
      ∃ bytes₁, w₁.tree.read work r.path = .ok bytes₁ ∧
        Utf8.decode bytes₁ = tidyBlanks (opened r.path.name (Utf8.decode bytes)) := by
  have hpass := Job.pass_builtin php {} work r w false (Utf8.decode bytes)
  have htree := Job.tree_pass_builtin php {} work r w false (Utf8.decode bytes)
  generalize hleft : (Job.builtin php {} work false).pass r w (Utf8.decode bytes) = left at hpass htree
  have hpassed (herror : left.hasError = false) :
      Passed php ⟨r.relative, false⟩ r.path.name (Utf8.decode bytes) ∧
        left.content = tidyBlanks (opened r.path.name (Utf8.decode bytes)) := by
    rw [hpass] at herror ⊢
    exact ⟨passed_of_through php _ _ rfl herror,
      (Pass.content_of_through php _ _ rfl herror).trans (answerAll_default php _ _ _)⟩
  by_cases hkept : left.content = Utf8.decode bytes
  · rw [Job.process_of_kept _ r w hread (.inl (hleft ▸ hkept)), hleft] at hfirst
    cases hfirst
    obtain ⟨hpassed, hcontent⟩ := hpassed (by simpa using hok)
    exact ⟨hpassed, bytes, htree ▸ hread, hkept.symm.trans hcontent⟩
  · rw [Job.process_of_changed _ r w hread (hleft ▸ hkept) rfl, hleft, Job.writeBack, htree] at hfirst
    split at hfirst
    · rename_i t hwrite
      cases hfirst
      obtain ⟨hpassed, hcontent⟩ := hpassed (by simpa using hok)
      have hplain := hpassed.noSurrogate_tidied rfl
      rw [← hcontent] at hplain
      have hencode := Utf8.encode_of_noSurrogate hplain
      have hback := ht.read_write hr hread hencode (congrArg Prod.snd hwrite)
      have hworks : (Job.builtin php {} work false).work = work := rfl
      rw [hworks] at hwrite
      rw [hwrite] at hback
      exact ⟨hpassed, _, hback, (Utf8.decode_flatMap_bytesOf hplain).trans hcontent⟩
    · cases hfirst
      cases hok
    · cases hfirst

/-- When a run with fixes and without options leaves a file that is fine, then a second such run over it reports no fix, does
not rewrite it and finds it fine, if and only if the content before the first run had not more than one byte order mark, a
PHP source not more than one closing tag at its end, and no carriage return between blanks before a line feed. -/
theorem second_fix_is_idle_iff (ht : w.tree.WellFormed) (hr : r.path.IsPlain)
    (hread : w.tree.read work r.path = .ok bytes)
    (hfirst : (Job.builtin php {} work false).process r w = .ok (w₁, result)) (hok : result.ok = true) :
    (∃ w₂ new, (Job.builtin php {} work false).process r w₁ = .ok (w₂, ⟨true, false⟩) ∧ w₂.tree = w₁.tree ∧
      w₂.reporter.findings = w₁.reporter.findings ++ new ∧ ∀ f ∈ new, f.level ≠ .fix) ↔
      IsFinal r.path.name (Utf8.decode bytes) := by
  obtain ⟨hpassed, bytes₁, hread₁, hbytes₁⟩ := read_of_process php work r w w₁ result bytes ht hr hread hfirst hok
  rw [← right_tidied_iff hpassed, ← hbytes₁, ← process_unwritten_iff php {} work r w₁ hread₁]
  constructor
  · rintro ⟨w₂, new, hsecond, -⟩
    exact ⟨w₂, hsecond⟩
  · rintro ⟨w₂, hsecond⟩
    obtain ⟨-, new, hnew, hwarnings⟩ :=
      process_of_readOnly php {} work r w₁ w₂ (process_of_unwritten php {} work r w₁ w₂ hsecond)
    refine ⟨w₂, new, hsecond, tree_of_unwritten php {} work r w₁ w₂ hsecond, hnew, fun f hf => ?_⟩
    rw [hwarnings f hf]
    decide

end Second

namespace ConvergenceWitness

/-- The job of the tasks that always run. -/
def job : Job := Job.builtin Php.tokenizer {} [] false

/-- The record of a file at the top. -/
def record : Record := ⟨.ofText "/a.txt", "a.txt"⟩

/-- A world with that file alone, in which fixes have been reported. -/
def world (content : Bytes) (fixes : List Text) : World where
  tree := ⟨[(["a.txt"], .file 0o644 content)]⟩
  reporter := ⟨fixes.map fun message => ⟨.fix, "a.txt", message, none, true⟩⟩

/-- Two byte order marks, a letter and a line feed. -/
def marked : Bytes := [0xEF, 0xBB, 0xBF, 0xEF, 0xBB, 0xBF, 0x78, 0x0A]

/-- A letter, two blanks and a line feed. -/
def trailing : Bytes := [0x78, 0x20, 0x20, 0x0A]

/-- A letter and a line feed. -/
def plain : Bytes := [0x78, 0x0A]

theorem process_of_rewritten {given left : Bytes} {c : Text} {fixes fixes' : List Text}
    (hread : (world given fixes).tree.read [] record.path = .ok given)
    (hpass : job.pass record (world given fixes) (Utf8.decode given) = ⟨world given fixes', c, false⟩)
    (hchanged : c ≠ Utf8.decode given)
    (hwrite : (world given fixes').tree.write [] record.path c = ((world left fixes').tree, none)) :
    job.process record (world given fixes) = .ok (world left fixes', ⟨true, true⟩) :=
  job.process_of_written record _ hread hpass hchanged rfl hwrite

theorem process_trailing :
    job.process record (world trailing []) = .ok (world plain ["2 bytes of whitespaces"], ⟨true, true⟩) :=
  process_of_rewritten (c := Text.ofString "x\n") (by cbv) (by cbv) (by decide +kernel) (by cbv)

end ConvergenceWitness

open ConvergenceWitness in
/-- A file with two byte order marks that the first run leaves fine, and that the second rewrites once more. -/
theorem second_fix_is_not_idle :
    job.process record (world marked []) = .ok (world (marked.drop 3) ["contains BOM"], ⟨true, true⟩) ∧
      job.process record (world (marked.drop 3) ["contains BOM"]) =
        .ok (world plain ["contains BOM", "contains BOM"], ⟨true, true⟩) := by
  constructor
  · exact process_of_rewritten (c := .ofNat 0xFEFF :: Text.ofString "x\n") (by cbv) (by cbv) (by decide +kernel) (by cbv)
  · exact process_of_rewritten (c := Text.ofString "x\n") (by cbv) (by cbv) (by decide +kernel) (by cbv)

open ConvergenceWitness in
/-- A file with trailing blanks: the first run takes them away, and the second finds nothing to do. -/
theorem second_fix_is_idle_witness :
    (world trailing []).tree.WellFormed ∧ record.path.IsPlain ∧
      (world trailing []).tree.read [] record.path = .ok trailing ∧
      job.process record (world trailing []) = .ok (world plain ["2 bytes of whitespaces"], ⟨true, true⟩) ∧
      ∃ w₂ new, job.process record (world plain ["2 bytes of whitespaces"]) = .ok (w₂, ⟨true, false⟩) ∧
        w₂.tree = (world plain ["2 bytes of whitespaces"]).tree ∧
        w₂.reporter.findings = (world plain ["2 bytes of whitespaces"]).reporter.findings ++ new ∧
        ∀ f ∈ new, f.level ≠ .fix := by
  have hwf : (world trailing []).tree.WellFormed := by decide +kernel
  have hplain : record.path.IsPlain := Path.isPlain_ofText _
  have hread : (world trailing []).tree.read [] record.path = .ok trailing := by cbv
  have hfinal : IsFinal record.path.name (Utf8.decode trailing) := by
    refine ⟨by decide +kernel, fun h => absurd h (by decide +kernel), ?_⟩
    rw [← Task.stripLineBlanks_stripLineBlanks_iff]
    decide +kernel
  exact ⟨hwf, hplain, hread, process_trailing,
    (second_fix_is_idle_iff Php.tokenizer [] record _ _ ⟨true, true⟩ _ hwf hplain hread process_trailing rfl).2 hfinal⟩

end SourceTidy.Run
