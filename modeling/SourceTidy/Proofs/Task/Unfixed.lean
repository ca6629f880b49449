import SourceTidy.Proofs.Glob.Wildcard
import SourceTidy.Proofs.Php.Declaration
import SourceTidy.Proofs.Task.Builtin
import SourceTidy.Proofs.Task.Stable

/-!
# Checks of a text that is not fixed

A run that writes no fixes lets its checks read the text as it was. A check that runs before trailing blanks are taken away finds
no more in it than in what the corrections before it make of it (`goesWrong_of_answer`): a byte order mark is no escape and starts
no line with a tab, brackets bring no declaration about, and a line end is a line end. There is one exception, a JSON document
behind a byte order mark.
-/

namespace SourceTidy.Task

open Text (lineFeed carriageReturn)

/-! ## Byte order marks -/

theorem eq_or_eq_cons_fixByteOrderMark (t : Text) :
    (fixByteOrderMark t).2 = t ∨ t = byteOrderMark :: (fixByteOrderMark t).2 := by
  cases t with
  | nil => exact .inl rfl
  | cons c rest =>
    rw [fixByteOrderMark_cons]
    split
    · rename_i hc
      exact .inr (hc ▸ rfl)
    · exact .inl rfl

theorem checkEncoding_of_fixByteOrderMark {t : Text} (h : checkEncoding (fixByteOrderMark t).2 = []) :
    checkEncoding t = [] := by
  rcases eq_or_eq_cons_fixByteOrderMark t with heq | heq
  · rwa [heq] at h
  · rw [heq]
    rw [checkEncoding, atFirst_eq_nil_iff] at h ⊢
    exact List.forall_mem_cons.2 ⟨by decide, h⟩

theorem checkStrictTypes_of_fixByteOrderMark {t : Text} (h : checkStrictTypes (fixByteOrderMark t).2 = []) :
    checkStrictTypes t = [] := by
  rcases eq_or_eq_cons_fixByteOrderMark t with heq | heq
  · rwa [heq] at h
  · have hword : byteOrderMark.isWord = false := by decide +kernel
    rw [heq]
    rw [checkStrictTypes_eq_nil_iff] at h ⊢
    rw [declaresStrictTypes, hword, Bool.or_eq_true]
    exact .inr h

theorem checkYamlIndentation_of_fixByteOrderMark {t : Text} (h : checkYamlIndentation (fixByteOrderMark t).2 = []) :
    checkYamlIndentation t = [] := by
  rcases eq_or_eq_cons_fixByteOrderMark t with heq | heq
  · rwa [heq] at h
  · rw [heq]
    rw [checkYamlIndentation_eq_nil_iff] at h ⊢
    have hmark : some byteOrderMark ≠ some Text.tab := by decide
    exact ⟨fun _ => hmark, List.isChain_cons.2 ⟨fun _ _ hfeed => absurd hfeed.1 (by decide), h.2⟩⟩

/-! ## Line ends -/

theorem replaceReturns_cons (c : CodePoint) (t : Text) :
    replaceReturns (c :: t) = (if c = carriageReturn then lineFeed else c) :: replaceReturns t := rfl

/-- What is no line end stands at the head of a text when it does after the line ends are made line feeds. -/
theorem head?_fixLineEnds_iff {c : CodePoint} (hreturn : c ≠ carriageReturn) (hfeed : c ≠ lineFeed) (t : Text) :
    (fixLineEnds t).2.head? = some c ↔ t.head? = some c := by
  have hone (d : CodePoint) (rest rest' : Text) :
      (replaceReturns (d :: rest)).head? = some c ↔ (d :: rest').head? = some c := by
    rw [replaceReturns_cons, List.head?_cons, List.head?_cons, Option.some.injEq, Option.some.injEq]
    split
    · rename_i hd
      exact iff_of_false hfeed.symm (hd ▸ hreturn.symm)
    · rfl
  simp only [fixLineEnds]
  fun_cases Text.joinPairs t with
  | case1 => exact Iff.rfl
  | case2 d => exact hone d [] []
  | case3 d e rest h =>
    rw [h.1, h.2, hone lineFeed _ rest, List.head?_cons, List.head?_cons, Option.some.injEq, Option.some.injEq]
    exact iff_of_false hfeed.symm hreturn.symm
  | case4 d e rest h => exact hone d _ _

theorem checkYamlIndentation_of_fixLineEnds {t : Text} (h : checkYamlIndentation (fixLineEnds t).2 = []) :
    checkYamlIndentation t = [] := by
  have htab (t : Text) : (fixLineEnds t).2.head? = some Text.tab ↔ t.head? = some Text.tab :=
    head?_fixLineEnds_iff (by decide) (by decide) t
  rw [checkYamlIndentation_eq_nil_iff] at h ⊢
  refine ⟨fun hstart => (not_congr (htab t)).1 (h.1 hstart), ?_⟩
  have hchain := h.2
  clear h
  simp only [fixLineEnds] at hchain htab
  fun_induction Text.joinPairs t with
  | case1 => exact .nil
  | case2 c => exact .singleton c
  | case3 c d rest h ih =>
    obtain ⟨rfl, rfl⟩ := h
    rw [replaceReturns_cons, List.isChain_cons] at hchain
    have hrest : (lineFeed :: rest).IsChain fun c d => ¬ (c = lineFeed ∧ d = Text.tab) := by
      refine List.isChain_cons.2 ⟨?_, ih hchain.2⟩
      rintro e he ⟨-, rfl⟩
      exact hchain.1 _ ((htab rest).2 he) ⟨by decide, rfl⟩
    exact List.isChain_cons.2 ⟨fun _ _ hfeed => absurd hfeed.1 (by decide), hrest⟩
  | case4 c d rest h ih =>
    rw [replaceReturns_cons, List.isChain_cons] at hchain
    refine List.isChain_cons.2 ⟨?_, ih hchain.2⟩
    rintro e he ⟨rfl, rfl⟩
    exact hchain.1 _ ((htab (d :: rest)).2 he) ⟨by decide, rfl⟩

/-- A text with its line ends made line feeds is turned back by other blanks for some of the line feeds. -/
theorem thins_fixLineEnds (t : Text) : Json.Thins (fixLineEnds t).2 t := by
  have hone (c : CodePoint) {s s' : Text} (tail : Json.Thins s s') :
      Json.Thins ((if c = carriageReturn then lineFeed else c) :: s) ([c] ++ s') := by
    split
    · rename_i hc
      exact .replace (by decide) (by decide) (by simp [hc]; decide) (by simp) tail
    · exact .keep c tail
  simp only [fixLineEnds]
  fun_induction Text.joinPairs t with
  | case1 => exact .done (by decide) (by decide) id
  | case2 c => exact hone c (.done (by decide) (by decide) id)
  | case3 c d rest h ih =>
    obtain ⟨rfl, rfl⟩ := h
    have hpair : Json.Thins (lineFeed :: replaceReturns (Text.joinPairs rest)) ([carriageReturn, lineFeed] ++ rest) :=
      .replace (by decide) (by decide) (by decide) (by decide) ih
    exact hpair
  | case4 c d rest h ih => exact hone c ih

theorem check_of_fixLineEnds {t : Text} (h : Json.check (fixLineEnds t).2 = .ok ()) : Json.check t = .ok () :=
  Json.checkWithin_of_thins (thins_fixLineEnds t) h

/-! ## Names -/

section Names

variable {b : Builtin} {name : Text}

theorem accepts_of_looksAt {mask : Text} (hb : b.mask = some mask) (hmask : mask.isEmpty = false)
    (h : b.task.looksAt name = true) : Mask.accepts mask name = true := by
  have hlooks : b.task.looksAt name = (mask.isEmpty || Mask.accepts mask name) := by
    have htask : b.task.mask = some mask := hb
    rw [looksAt, htask]
  rwa [hlooks, hmask, Bool.false_or] at h

/-- The name of a PHP source ends in P or T. -/
theorem getLast?_of_php (hb : b.mask = some Builtin.phpMask) (h : b.task.looksAt name = true) :
    ∃ c ∈ ([('p' : CodePoint), ('t' : CodePoint)] : Text), name.caseFold.getLast? = some c :=
  Mask.getLast?_of_accepts (by decide +kernel) (by decide +kernel) (accepts_of_looksAt hb (by decide +kernel) h)

/-- That of a JSON or YAML document does not. -/
theorem getLast?_of_document (hb : b = .json ∨ b = .yamlIndentation) (h : b.task.looksAt name = true) :
    ∃ c ∈ ([('n' : CodePoint), ('l' : CodePoint)] : Text), name.caseFold.getLast? = some c := by
  rcases hb with rfl | rfl
  · exact Mask.getLast?_of_accepts (by decide +kernel) (by decide +kernel)
      (accepts_of_looksAt rfl (by decide +kernel) h)
  · exact Mask.getLast?_of_accepts (by decide +kernel) (by decide +kernel)
      (accepts_of_looksAt rfl (by decide +kernel) h)

end Names

/-- No task for PHP sources looks at a file that is read as a JSON or YAML document. -/
theorem not_looksAt_of_document {b b' : Builtin} (hb : b = .json ∨ b = .yamlIndentation)
    (hb' : b'.mask = some Builtin.phpMask) {name : Text} (h : b.task.looksAt name = true) :
    b'.task.looksAt name = false := by
  rw [← Bool.not_eq_true]
  intro h'
  obtain ⟨c, hc, hlast⟩ := getLast?_of_php hb' h'
  obtain ⟨d, hd, hlast'⟩ := getLast?_of_document hb h
  rw [hlast, Option.some.injEq] at hlast'
  subst hlast'
  have hapart : ∀ c ∈ ([('p' : CodePoint), ('t' : CodePoint)] : Text),
      c ∉ ([('n' : CodePoint), ('l' : CodePoint)] : Text) := by decide
  exact hapart c hc hd

/-! ## All tasks -/

namespace Builtin

/-- A task that runs before trailing blanks are taken away. -/
def IsEarly (b : Builtin) : Prop := [b, trailingBlanks].Sublist all

instance (b : Builtin) : Decidable b.IsEarly := inferInstanceAs (Decidable ([b, trailingBlanks].Sublist all))

variable (php : Php.Tokenizer) (path : Text)

/-- Nothing goes wrong with fixes at a correction, nor at a check that warns. -/
theorem right_or_check_of_isEarly {b : Builtin} (hb : b.IsEarly) :
    (∀ t, (b.taskWith php.tokens).goesWrong ⟨path, false⟩ t = false) ∨ b = controlCharacters ∨ b = encoding ∨
      b = strictTypes ∨ b = json ∨ b = yamlIndentation := by
  cases b with
  | controlCharacters | encoding | strictTypes | json | yamlIndentation => simp
  | byteOrderMark | shortArrays | lineEnds | closingTag => exact .inl (goesWrong_of_correction php rfl path)
  | docComments | escapes => exact .inl fun t => (goesWrong_of_check php rfl _ t).2 (.inl rfl)
  | trailingBlanks | tabIndentation | phpIndentation | innerTabs => exact absurd hb (by decide)

/-- What comes before such a task leaves a text as it is, or is one of the first four corrections. -/
theorem keeps_or_correction_of_before {b b' : Builtin} (hb : b.IsEarly) (hbefore : [b', b].Sublist all) :
    (∀ c t, (b'.taskWith php.tokens).answer c t = t) ∨ b' = byteOrderMark ∨ b' = shortArrays ∨ b' = lineEnds ∨
      b' = closingTag := by
  cases b' with
  | byteOrderMark | shortArrays | lineEnds | closingTag => simp
  | trailingBlanks =>
    have htwice : ¬ (b.IsEarly ∧ [trailingBlanks, b].Sublist all) := by cases b <;> decide
    exact absurd ⟨hb, hbefore⟩ htwice
  | _ => exact .inl fun c t => (of_correction?_eq_none rfl c t).1

/-- What goes wrong with fixes at a task that runs before trailing blanks are taken away, given a text, goes wrong given what a
task before it makes of the text, unless the text starts with a byte order mark and is read as a JSON document. -/
theorem goesWrong_of_answer {b b' : Builtin} (hearly : b.IsEarly) (hbefore : [b', b].Sublist all) {name t : Text}
    (hlooks : b.task.looksAt name = true) (hlooks' : b'.task.looksAt name = true)
    (hmark : b = json → t.head? ≠ some Task.byteOrderMark)
    (h : (b.taskWith php.tokens).goesWrong ⟨path, false⟩ ((b'.taskWith php.tokens).answer ⟨path, false⟩ t) = false) :
    (b.taskWith php.tokens).goesWrong ⟨path, false⟩ t = false := by
  rcases keeps_or_correction_of_before php hearly hbefore with hkeeps | hcorrection
  · rwa [hkeeps] at h
  have hmark' : (byteOrderMark.taskWith php.tokens).answer ⟨path, false⟩ t = (fixByteOrderMark t).2 := rfl
  have harrays : (shortArrays.taskWith php.tokens).answer ⟨path, false⟩ t = (fixArrays (php.tokens t) t).2 := rfl
  have hends : (lineEnds.taskWith php.tokens).answer ⟨path, false⟩ t = (fixLineEnds t).2 := rfl
  -- Corrections of PHP sources do not look at documents.
  have hsource (hb : b = json ∨ b = yamlIndentation) (hb' : b'.mask = some phpMask) : False := by
    rw [not_looksAt_of_document hb hb' hlooks] at hlooks'
    cases hlooks'
  rcases right_or_check_of_isEarly php path hearly with hright | rfl | rfl | rfl | rfl | rfl
  · exact hright t
  · rcases hcorrection with rfl | rfl | rfl | rfl <;> exact absurd hbefore (by decide)
  · rcases hcorrection with rfl | rfl | rfl | rfl
    · rw [hmark', goesWrong_of_check php rfl] at h
      exact (goesWrong_of_check php rfl _ _).2 (h.imp_right checkEncoding_of_fixByteOrderMark)
    all_goals exact absurd hbefore (by decide)
  · rcases hcorrection with rfl | rfl | rfl | rfl
    · rw [hmark', goesWrong_of_check php rfl] at h
      exact (goesWrong_of_check php rfl _ _).2 (h.imp_right checkStrictTypes_of_fixByteOrderMark)
    · rw [harrays, goesWrong_of_check php rfl] at h
      exact (goesWrong_of_check php rfl _ _).2 (h.imp_right (checkStrictTypes_of_fixArrays (php.tiles t)))
    all_goals exact absurd hbefore (by decide)
  · rcases hcorrection with rfl | rfl | rfl | rfl
    · rcases eq_or_eq_cons_fixByteOrderMark t with heq | heq
      · rwa [hmark', heq] at h
      · rw [heq] at hmark
        exact absurd rfl (hmark rfl)
    · exact (hsource (.inl rfl) rfl).elim
    · rw [hends, goesWrong_json] at h
      exact (goesWrong_json php _ _).2 (check_of_fixLineEnds h)
    · exact (hsource (.inl rfl) rfl).elim
  · rcases hcorrection with rfl | rfl | rfl | rfl
    · rw [hmark', goesWrong_of_check php rfl] at h
      exact (goesWrong_of_check php rfl _ _).2 (h.imp_right checkYamlIndentation_of_fixByteOrderMark)
    · exact (hsource (.inr rfl) rfl).elim
    · rw [hends, goesWrong_of_check php rfl] at h
      exact (goesWrong_of_check php rfl _ _).2 (h.imp_right checkYamlIndentation_of_fixLineEnds)
    · exact (hsource (.inr rfl) rfl).elim

/-- No byte order mark stands at the start of a text after a task before that of JSON documents, if none did before. -/
theorem head?_answer_of_before {b : Builtin} (hbefore : [b, json].Sublist all) {name t : Text}
    (hlooks : json.task.looksAt name = true) (hlooks' : b.task.looksAt name = true)
    (hmark : t.head? ≠ some Task.byteOrderMark) (c : Context) :
    ((b.taskWith php.tokens).answer c t).head? ≠ some Task.byteOrderMark := by
  rcases keeps_or_correction_of_before php (by decide) hbefore with hkeeps | rfl | rfl | rfl | rfl
  · rwa [hkeeps]
  · have hanswer : (byteOrderMark.taskWith php.tokens).answer c t = (fixByteOrderMark t).2 := rfl
    rcases eq_or_eq_cons_fixByteOrderMark t with heq | heq
    · rwa [hanswer, heq]
    · rw [heq] at hmark
      exact absurd rfl hmark
  · rw [not_looksAt_of_document (.inl rfl) rfl hlooks] at hlooks'
    cases hlooks'
  · exact fun h => hmark ((head?_fixLineEnds_iff (by decide) (by decide) t).1 h)
  · rw [not_looksAt_of_document (.inl rfl) rfl hlooks] at hlooks'
    cases hlooks'

/-- The same after any tasks that come before it. -/
theorem goesWrong_of_answerAll {b : Builtin} (hearly : b.IsEarly) {bs : List Builtin}
    (hbefore : ∀ b' ∈ bs, [b', b].Sublist all) {name : Text} (hlooks : b.task.looksAt name = true)
    (hlooks' : ∀ b' ∈ bs, b'.task.looksAt name = true) {t : Text} (hmark : b = json → t.head? ≠ some Task.byteOrderMark)
    (h : (b.taskWith php.tokens).goesWrong ⟨path, false⟩ (answerAll php ⟨path, false⟩ bs t) = false) :
    (b.taskWith php.tokens).goesWrong ⟨path, false⟩ t = false := by
  induction bs generalizing t with
  | nil => exact h
  | cons b' bs ih =>
    rw [List.forall_mem_cons] at hbefore hlooks'
    rw [answerAll_cons] at h
    refine goesWrong_of_answer php path hearly hbefore.1 hlooks hlooks'.1 hmark (ih hbefore.2 hlooks'.2 ?_ h)
    rintro rfl
    exact head?_answer_of_before php hbefore.1 hlooks hlooks'.1 (hmark rfl) _

/-! ## What goes wrong only without fixes -/

/-- Whether a task errs on a text that is not fixed, though it may have nothing to say against what fixes make of it: the reader
of JSON documents at a byte order mark, and the checks that run after trailing blanks are taken away at whatever they find. -/
def ErrsUnfixed (t : Text) : Builtin → Prop
  | json => t.head? = some Task.byteOrderMark
  | tabIndentation => checkTabIndentation t ≠ []
  | phpIndentation => checkPhpIndentation (php.tokens t) t ≠ []
  | innerTabs => checkInnerTabs t ≠ []
  | _ => False

theorem goesWrong_json_of_mark {t : Text} (ht : t.head? = some Task.byteOrderMark) (c : Context) :
    (json.taskWith php.tokens).goesWrong c t = true := by
  have hmark : t.head? = some Json.byteOrderMark := ht
  rw [← Bool.not_eq_false, goesWrong_json, Json.check, Json.checkWithin, if_pos hmark]
  rintro ⟨⟩

/-- A task that does not go wrong with fixes, after tasks that run before it, goes wrong at the text as it was exactly when it errs
on a text that is not fixed. -/
theorem goesWrong_iff_errsUnfixed {b : Builtin} {bs : List Builtin} (hbefore : ∀ b' ∈ bs, [b', b].Sublist all)
    {name t : Text} (hlooks : b.task.looksAt name = true) (hlooks' : ∀ b' ∈ bs, b'.task.looksAt name = true)
    (h : (b.taskWith php.tokens).goesWrong ⟨path, false⟩ (answerAll php ⟨path, false⟩ bs t) = false) :
    (b.taskWith php.tokens).goesWrong ⟨path, false⟩ t = true ↔ b.ErrsUnfixed php t := by
  have hright (hearly : b.IsEarly) (hmark : b = json → t.head? ≠ some Task.byteOrderMark) :
      ¬ (b.taskWith php.tokens).goesWrong ⟨path, false⟩ t = true := by
    rw [Bool.not_eq_true]
    exact goesWrong_of_answerAll php path hearly hbefore hlooks hlooks' hmark h
  have hlate (check : Text → List Notice) (hcheck : b.check? php = some (.error, check)) :
      (b.taskWith php.tokens).goesWrong ⟨path, false⟩ t = true ↔ check t ≠ [] := by
    rw [← Bool.not_eq_false, goesWrong_of_check php hcheck]
    simp
  cases b with
  | json =>
    by_cases hmark : t.head? = some Task.byteOrderMark
    · exact iff_of_true (goesWrong_json_of_mark php hmark _) hmark
    · exact iff_of_false (hright (by decide) fun _ => hmark) hmark
  | tabIndentation => exact hlate checkTabIndentation rfl
  | phpIndentation => exact hlate (fun t => checkPhpIndentation (php.tokens t) t) rfl
  | innerTabs => exact hlate checkInnerTabs rfl
  | trailingBlanks =>
    exact iff_of_false (by simp [goesWrong_of_correction php (b := trailingBlanks) rfl path t]) id
  | _ => exact iff_of_false (hright (by decide) nofun) id

end Builtin

end SourceTidy.Task
