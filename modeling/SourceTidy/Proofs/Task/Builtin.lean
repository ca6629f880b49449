import SourceTidy.Task.Builtin
import SourceTidy.Proofs.Run.Step
import SourceTidy.Proofs.Task.Fixers

/-!
# The tasks of this library

What holds of all fifteen tasks: they remove and record nothing, they do not ask whether fixes are written, and each reports
a fix exactly when it answers with another text. If a list of them, none twice, answers a text with that text, then each of
them does (`Builtin.answer_eq_of_answerAll_eq`). All this holds whatever the tokens of a PHP source are, as long as they
tile it.
-/

namespace SourceTidy.Task

open Text (lineFeed carriageReturn bulk)

/-! ## Checks and corrections -/

@[simp] theorem Response.notices_map_report (ns : List Notice) (o : Outcome) :
    Response.notices ⟨ns.map .report, o⟩ = ns := by
  induction ns with
  | nil => rfl
  | cons n ns ih => exact congrArg (n :: ·) ih

@[simp] theorem Handler.notices_ofCheck (check : Text → List Notice) (c : Context) (t : Text) :
    (Handler.ofCheck check c t).notices = check t :=
  Response.notices_map_report (check t) (.text t)

@[simp] theorem Handler.notices_ofFix (fix : Text → List Notice × Text) (c : Context) (t : Text) :
    (Handler.ofFix fix c t).notices = (fix t).1 :=
  Response.notices_map_report (fix t).1 (.text (fix t).2)

/-- A check all of whose findings are of one level. -/
def FindsOnly (level : Level) (check : Text → List Notice) : Prop := ∀ t, ∀ n ∈ check t, n.level = level

theorem findsOnly_atFirst (level : Level) (message : Text) (p : CodePoint → Bool) :
    FindsOnly level (Notice.atFirst level message p) := by
  intro t n hn
  rw [Notice.atFirst, Option.mem_toList, Option.map_eq_some_iff] at hn
  obtain ⟨offset, -, rfl⟩ := hn
  rfl

theorem findsOnly_at (level : Level) (message : Text) (find : Text → Option Nat) :
    FindsOnly level fun t => ((find t).map fun n => Notice.at level message t n).toList := by
  intro t n hn
  rw [Option.mem_toList, Option.map_eq_some_iff] at hn
  obtain ⟨offset, -, rfl⟩ := hn
  rfl

theorem findsOnly_checkControlCharacters : FindsOnly .error checkControlCharacters := findsOnly_atFirst _ _ _

theorem findsOnly_checkEncoding : FindsOnly .error checkEncoding := findsOnly_atFirst _ _ _

theorem findsOnly_checkYamlIndentation : FindsOnly .error checkYamlIndentation :=
  findsOnly_at _ _ (firstLine? startsWithTab)

theorem findsOnly_checkInnerTabs : FindsOnly .error checkInnerTabs := findsOnly_at _ _ (firstLine? hasInnerTab)

theorem findsOnly_checkTabIndentation : FindsOnly .error checkTabIndentation :=
  findsOnly_at _ _ Text.spaceIndentation?

theorem findsOnly_checkPhpIndentation (tokens : Text → List Php.Token) :
    FindsOnly .error fun t => checkPhpIndentation (tokens t) t :=
  findsOnly_at _ _ fun t => (maskData (tokens t)).spaceIndentation?

theorem findsOnly_checkDocComments (tokens : Text → List Php.Token) :
    FindsOnly .warning fun t => checkDocComments (tokens t) t := by
  intro t n hn
  obtain ⟨k, -, hk⟩ := List.mem_filterMap.1 hn
  split at hk
  · cases hk
    rfl
  · split at hk
    · cases hk
      rfl
    · cases hk

theorem findsOnly_checkStrictTypes : FindsOnly .error checkStrictTypes := by
  intro t n hn
  rw [checkStrictTypes] at hn
  split at hn
  · cases hn
  · rw [List.mem_singleton.1 hn]

theorem findsOnly_checkEscapes (tokens : Text → List Php.Token) :
    FindsOnly .warning fun t => checkEscapes (tokens t) t := by
  intro t n hn
  obtain ⟨⟨start, literal⟩, -, hn⟩ := List.mem_flatMap.1 hn
  obtain ⟨⟨offset, c⟩, -, hn⟩ := List.mem_filterMap.1 hn
  simp only at hn
  split at hn
  · cases hn
  · cases hn
    rfl

namespace Builtin

/-- The correction that a task makes, if it makes one. -/
def correction? (php : Php.Tokenizer) : Builtin → Option (Text → List Notice × Text)
  | byteOrderMark => some fixByteOrderMark
  | shortArrays => some fun t => fixArrays (php.tokens t) t
  | lineEnds => some fixLineEnds
  | closingTag => some fixClosingTag
  | trailingBlanks => some fixTrailingBlanks
  | _ => none

variable {php : Php.Tokenizer}

theorem handler_of_correction {b : Builtin} {fix : Text → List Notice × Text} (h : b.correction? php = some fix) :
    b.handlerWith php.tokens = .ofFix fix := by
  cases b <;> cases h <;> rfl

theorem honest_of_correction {b : Builtin} {fix : Text → List Notice × Text}
    (h : b.correction? php = some fix) : Honest fix := by
  cases b <;> cases h
  · exact honest_fixByteOrderMark
  · exact honest_fixArrays php
  · exact honest_fixLineEnds
  · exact honest_fixClosingTag
  · exact honest_fixTrailingBlanks

theorem onlyFixes_of_correction {b : Builtin} {fix : Text → List Notice × Text} (h : b.correction? php = some fix) :
    OnlyFixes fix := by
  cases b <;> cases h
  · exact onlyFixes_fixByteOrderMark
  · exact onlyFixes_fixArrays php.tokens
  · exact onlyFixes_fixLineEnds
  · exact onlyFixes_fixClosingTag
  · exact onlyFixes_fixTrailingBlanks

/-- The check that a task makes and the level of what it finds, if it makes one and leaves it at that. -/
def check? (php : Php.Tokenizer) : Builtin → Option (Level × (Text → List Notice))
  | controlCharacters => some (.error, checkControlCharacters)
  | encoding => some (.error, checkEncoding)
  | docComments => some (.warning, fun t => checkDocComments (php.tokens t) t)
  | strictTypes => some (.error, checkStrictTypes)
  | escapes => some (.warning, fun t => checkEscapes (php.tokens t) t)
  | yamlIndentation => some (.error, checkYamlIndentation)
  | tabIndentation => some (.error, checkTabIndentation)
  | phpIndentation => some (.error, fun t => checkPhpIndentation (php.tokens t) t)
  | innerTabs => some (.error, checkInnerTabs)
  | _ => none

theorem handler_of_check {b : Builtin} {level : Level} {check : Text → List Notice}
    (h : b.check? php = some (level, check)) : b.handlerWith php.tokens = .ofCheck check := by
  cases b <;> cases h <;> rfl

theorem findsOnly_of_check {b : Builtin} {level : Level} {check : Text → List Notice}
    (h : b.check? php = some (level, check)) : FindsOnly level check ∧ level ≠ .fix := by
  cases b <;> cases h
  · exact ⟨findsOnly_checkControlCharacters, by decide⟩
  · exact ⟨findsOnly_checkEncoding, by decide⟩
  · exact ⟨findsOnly_checkDocComments php.tokens, by decide⟩
  · exact ⟨findsOnly_checkStrictTypes, by decide⟩
  · exact ⟨findsOnly_checkEscapes php.tokens, by decide⟩
  · exact ⟨findsOnly_checkYamlIndentation, by decide⟩
  · exact ⟨findsOnly_checkTabIndentation, by decide⟩
  · exact ⟨findsOnly_checkPhpIndentation php.tokens, by decide⟩
  · exact ⟨findsOnly_checkInnerTabs, by decide⟩

/-- Apart from corrections and checks there is only the task for JSON documents. -/
theorem eq_json_of_none {b : Builtin} (h : b.correction? php = none) (h' : b.check? php = none) : b = json := by
  cases b <;> simp_all [correction?, check?]

theorem checkJson_eq (c : Context) (t : Text) :
    checkJson c t = match Json.check t with
      | .ok () => ⟨[], .text t⟩
      | .error failure => jsonResponse t failure := rfl

/-- A task that makes no correction answers with the text it was given, if it answers at all, and reports no fix. -/
theorem of_correction?_eq_none {b : Builtin} (h : b.correction? php = none) (c : Context) (t : Text) :
    (b.taskWith php.tokens).answer c t = t ∧ ∀ n ∈ (b.handlerWith php.tokens c t).notices, n.level ≠ .fix := by
  cases hcheck : b.check? php with
  | some found =>
    obtain ⟨level, check⟩ := found
    obtain ⟨honly, hlevel⟩ := findsOnly_of_check hcheck
    simp only [answer, taskWith, handler_of_check hcheck, Handler.notices_ofCheck]
    exact ⟨rfl, fun n hn => honly t n hn ▸ hlevel⟩
  | none =>
    rw [eq_json_of_none h hcheck]
    simp only [answer, taskWith, handlerWith, checkJson_eq]
    cases Json.check t with
    | ok u => exact ⟨rfl, by simp [Response.notices]⟩
    | error failure => cases failure <;> exact ⟨rfl, by simp [jsonResponse, Response.notices, Notice.at]⟩

variable (php)

/-- A task reports a fix when it answers with another text than it was given, and only then. -/
theorem reports_fix_iff (b : Builtin) (c : Context) (t : Text) :
    (∃ n ∈ (b.handlerWith php.tokens c t).notices, n.level = .fix) ↔ (b.taskWith php.tokens).answer c t ≠ t := by
  cases h : b.correction? php with
  | none =>
    obtain ⟨hanswer, hnotices⟩ := of_correction?_eq_none h c t
    refine iff_of_false ?_ fun hne => hne hanswer
    rintro ⟨n, hn, hfix⟩
    exact hnotices n hn hfix
  | some fix =>
    have hanswer : (b.taskWith php.tokens).answer c t = (fix t).2 := by
      simp only [answer, taskWith, handler_of_correction h, Handler.ofFix]
    rw [hanswer, handler_of_correction h, Handler.notices_ofFix]
    exact honest_of_correction h t

/-- A task does not ask which file it looks at, nor whether fixes are written. -/
theorem handler_context (b : Builtin) (c c' : Context) (t : Text) :
    b.handlerWith php.tokens c t = b.handlerWith php.tokens c' t := by
  cases b <;> rfl

theorem answer_context (b : Builtin) (c c' : Context) (t : Text) :
    (b.taskWith php.tokens).answer c t = (b.taskWith php.tokens).answer c' t := by
  simp only [answer, taskWith, handler_context php b c c' t]

/-- A task does nothing but report. -/
theorem acts_eq (b : Builtin) (c : Context) (t : Text) :
    (b.handlerWith php.tokens c t).acts = (b.handlerWith php.tokens c t).notices.map .report := by
  have hreport (ns : List Notice) (o : Outcome) :
      (⟨ns.map .report, o⟩ : Response).acts = (Response.notices ⟨ns.map .report, o⟩).map .report := by
    rw [Response.notices_map_report]
  cases h : b.correction? php with
  | some fix =>
    rw [handler_of_correction h]
    exact hreport (fix t).1 (.text (fix t).2)
  | none =>
    cases hcheck : b.check? php with
    | some found =>
      rw [handler_of_check hcheck]
      exact hreport (found.2 t) (.text t)
    | none =>
      rw [eq_json_of_none h hcheck]
      simp only [handlerWith, checkJson_eq]
      cases Json.check t with
      | ok u => rfl
      | error failure => cases failure <;> rfl

theorem keepsTree (b : Builtin) : (b.taskWith php.tokens).KeepsTree := by
  intro c t path hmem
  have hacts : ((b.taskWith php.tokens).handler c t).acts = (b.handlerWith php.tokens c t).notices.map .report :=
    acts_eq php b c t
  rw [hacts] at hmem
  obtain ⟨n, -, hn⟩ := List.mem_map.1 hmem
  cases hn

theorem records_eq_nil (b : Builtin) (c : Context) (t : Text) : (b.handlerWith php.tokens c t).records c = [] := by
  rw [Response.records, acts_eq, List.filterMap_map]
  exact List.filterMap_eq_nil_iff.2 fun n _ => rfl

/-! ## When a task goes wrong -/

theorem reports_context (b : Builtin) (c c' : Context) (t : Text) :
    (b.taskWith php.tokens).reports c t = (b.taskWith php.tokens).reports c' t := by
  have hhandler : (b.taskWith php.tokens).handler c t = (b.taskWith php.tokens).handler c' t := handler_context php b c c' t
  rw [reports, reports, hhandler]

/-- A fix that stays unwritten is all that can go wrong without fixes and not with them. -/
theorem goesWrong_readOnly_eq_false_iff (b : Builtin) (path t : Text) (c : Context) :
    (b.taskWith php.tokens).goesWrong ⟨path, true⟩ t = false ↔
      (b.taskWith php.tokens).goesWrong ⟨path, false⟩ t = false ∧ (b.taskWith php.tokens).answer c t = t := by
  have hfix := not_congr (reports_fix_iff php b c t)
  rw [not_not] at hfix
  have hhandler (c' : Context) : (b.taskWith php.tokens).handler c' t = b.handlerWith php.tokens c t :=
    handler_context php b c' c t
  rw [← hfix]
  simp only [goesWrong, hhandler, Bool.or_eq_false_iff, List.any_eq_false]
  constructor
  · rintro ⟨hnotices, hclosing⟩
    refine ⟨⟨fun n hn hfatal => ?_, hclosing⟩, ?_⟩
    · refine hnotices n hn ?_
      cases hlevel : n.level <;> simp_all [Run.isFatal]
    · rintro ⟨n, hn, hlevel⟩
      exact hnotices n hn (by simp [Run.isFatal, hlevel])
  · rintro ⟨⟨hnotices, hclosing⟩, hfix⟩
    refine ⟨fun n hn hfatal => ?_, hclosing⟩
    cases hlevel : n.level with
    | fix => exact hfix ⟨n, hn, hlevel⟩
    | warning => simp [Run.isFatal, hlevel] at hfatal
    | error => exact hnotices n hn (by simp [Run.isFatal, hlevel])

/-- A check goes wrong when it finds errors. -/
theorem goesWrong_of_check {b : Builtin} {level : Level} {check : Text → List Notice}
    (h : b.check? php = some (level, check)) (c : Context) (t : Text) :
    (b.taskWith php.tokens).goesWrong c t = false ↔ level = .warning ∨ check t = [] := by
  obtain ⟨honly, hlevel⟩ := findsOnly_of_check h
  have hgoes : (b.taskWith php.tokens).goesWrong c t = (check t).any fun n => Run.isFatal c.readOnly n.level := by
    simp only [goesWrong, taskWith, handler_of_check h, Handler.ofCheck, Response.notices_map_report, closing,
      List.isEmpty_nil, Bool.not_true, Bool.or_false]
  rw [hgoes, List.any_eq_false]
  cases level with
  | fix => exact absurd rfl hlevel
  | warning => exact iff_of_true (fun n hn => by simp [honly t n hn, Run.isFatal]) (.inl rfl)
  | error =>
    cases hcheck : check t with
    | nil => simp
    | cons n ns =>
      have hn := honly t n (hcheck ▸ List.mem_cons_self)
      simp [hn, Run.isFatal]

theorem goesWrong_json (c : Context) (t : Text) :
    (json.taskWith php.tokens).goesWrong c t = false ↔ Json.check t = .ok () := by
  simp only [goesWrong, taskWith, handlerWith, checkJson_eq]
  cases Json.check t with
  | ok u => simp [Response.notices, closing]
  | error failure => cases failure <;> simp [jsonResponse, Response.notices, closing, Notice.at, Run.isFatal]

/-- A correction does not go wrong as long as fixes are written. -/
theorem goesWrong_of_correction {b : Builtin} {fix : Text → List Notice × Text} (h : b.correction? php = some fix)
    (path t : Text) : (b.taskWith php.tokens).goesWrong ⟨path, false⟩ t = false := by
  simp only [goesWrong, taskWith, handler_of_correction h, Handler.ofFix, Response.notices_map_report, closing,
    List.isEmpty_nil, Bool.not_true, Bool.or_false, List.any_eq_false]
  exact fun n hn => by simp [onlyFixes_of_correction h t n hn, Run.isFatal]

/-- A correction goes wrong without fixes when it changes the text. -/
theorem goesWrong_readOnly_of_correction {b : Builtin} {fix : Text → List Notice × Text}
    (h : b.correction? php = some fix) (path t : Text) :
    (b.taskWith php.tokens).goesWrong ⟨path, true⟩ t = false ↔ (fix t).2 = t := by
  have hanswer : (b.taskWith php.tokens).answer ⟨path, true⟩ t = (fix t).2 := by
    simp only [answer, taskWith, handler_of_correction h, Handler.ofFix]
  rw [goesWrong_readOnly_eq_false_iff php b path t ⟨path, true⟩, hanswer, goesWrong_of_correction php h]
  exact and_iff_right rfl

/-! ## What a list of tasks changes -/

/-- The answer of a task other than the last correction: the same text, or one with a smaller bulk, or one that has lost its
carriage returns. -/
theorem answer_settles {b : Builtin} (hb : b ≠ trailingBlanks) (c : Context) (t : Text) :
    (b.taskWith php.tokens).answer c t = t ∨ bulk ((b.taskWith php.tokens).answer c t) < bulk t ∨
      bulk ((b.taskWith php.tokens).answer c t) ≤ bulk t ∧
        Text.carriageReturn ∈ t ∧ Text.carriageReturn ∉ (b.taskWith php.tokens).answer c t := by
  cases b with
  | byteOrderMark => exact settles_fixByteOrderMark t
  | shortArrays => exact settles_fixArrays php t
  | lineEnds => exact settles_fixLineEnds t
  | closingTag => exact settles_fixClosingTag t
  | trailingBlanks => exact absurd rfl hb
  | _ => exact .inl (of_correction?_eq_none rfl c t).1

theorem bulk_answer_le (b : Builtin) (c : Context) (t : Text) : bulk ((b.taskWith php.tokens).answer c t) ≤ bulk t := by
  by_cases hb : b = trailingBlanks
  · subst hb
    have hanswer : (trailingBlanks.taskWith php.tokens).answer c t = (fixTrailingBlanks t).2 := rfl
    rw [hanswer, fixTrailingBlanks_snd]
    exact bulk_tidyBlanks_le t
  · rcases answer_settles php hb c t with h | h | ⟨h, -⟩
    · rw [h]
    · exact Nat.le_of_lt h
    · exact h

/-- No task brings a carriage return into a text without one. -/
theorem carriageReturn_notMem_answer (b : Builtin) (c : Context) {t : Text} (ht : Text.carriageReturn ∉ t) :
    Text.carriageReturn ∉ (b.taskWith php.tokens).answer c t := by
  cases b with
  | byteOrderMark => exact keepsOut_fixByteOrderMark t ht
  | shortArrays => exact keepsOut_fixArrays php t ht
  | lineEnds => exact keepsOut_fixLineEnds t ht
  | closingTag => exact keepsOut_fixClosingTag t ht
  | trailingBlanks =>
    have hanswer : (trailingBlanks.taskWith php.tokens).answer c t = (fixTrailingBlanks t).2 := rfl
    rw [hanswer, fixTrailingBlanks_snd]
    exact carriageReturn_notMem_tidyBlanks ht
  | _ =>
    rw [(of_correction?_eq_none rfl c t).1]
    exact ht

/-- The answer of tasks that run one after the other. -/
def answerAll (php : Php.Tokenizer) (c : Context) (bs : List Builtin) (t : Text) : Text :=
  Task.answerAll c (bs.map (taskWith php.tokens)) t

theorem answerAll_cons (c : Context) (b : Builtin) (bs : List Builtin) (t : Text) :
    answerAll php c (b :: bs) t = answerAll php c bs ((b.taskWith php.tokens).answer c t) := rfl

theorem answerAll_append (c : Context) (bs bs' : List Builtin) (t : Text) :
    answerAll php c (bs ++ bs') t = answerAll php c bs' (answerAll php c bs t) := by
  rw [answerAll, List.map_append, Task.answerAll, List.foldl_append]
  rfl

theorem bulk_answerAll_le (c : Context) (bs : List Builtin) (t : Text) : bulk (answerAll php c bs t) ≤ bulk t := by
  induction bs generalizing t with
  | nil => exact Nat.le_refl _
  | cons b bs ih => exact (ih _).trans (bulk_answer_le php b c t)

theorem carriageReturn_notMem_answerAll (c : Context) (bs : List Builtin) {t : Text} (ht : Text.carriageReturn ∉ t) :
    Text.carriageReturn ∉ answerAll php c bs t := by
  induction bs generalizing t with
  | nil => exact ht
  | cons b bs ih => exact ih (carriageReturn_notMem_answer php b c ht)

/-- If tasks other than the last correction leave the bulk of a text as it is, and not all of its carriage returns are gone,
then none of them changes the text. -/
theorem answer_eq_of_bulk_eq (c : Context) {bs : List Builtin} (hbs : trailingBlanks ∉ bs) {t : Text}
    (hbulk : bulk t ≤ bulk (answerAll php c bs t))
    (hreturn : Text.carriageReturn ∈ t → Text.carriageReturn ∈ answerAll php c bs t) :
    ∀ b ∈ bs, (b.taskWith php.tokens).answer c t = t := by
  induction bs generalizing t with
  | nil => exact fun b hb => absurd hb List.not_mem_nil
  | cons b bs ih =>
    rw [answerAll_cons] at hbulk hreturn
    have hb : b ≠ trailingBlanks := fun h => hbs (h ▸ List.mem_cons_self)
    have hle := hbulk.trans (bulk_answerAll_le php c bs _)
    have hanswer : (b.taskWith php.tokens).answer c t = t := by
      rcases answer_settles php hb c t with h | h | ⟨-, hmem, hnot⟩
      · exact h
      · exact absurd hle (Nat.not_le_of_lt h)
      · exact absurd (hreturn hmem) (carriageReturn_notMem_answerAll php c bs hnot)
    rw [hanswer] at hbulk hreturn
    have hrest := ih (fun h => hbs (List.mem_cons_of_mem b h)) hbulk hreturn
    exact List.forall_mem_cons.2 ⟨hanswer, hrest⟩

theorem answerAll_eq_self (c : Context) {bs : List Builtin} {t : Text}
    (h : ∀ b ∈ bs, (b.taskWith php.tokens).answer c t = t) :
    answerAll php c bs t = t := by
  induction bs with
  | nil => rfl
  | cons b bs ih =>
    rw [answerAll_cons, h b List.mem_cons_self]
    exact ih fun b' hb' => h b' (List.mem_cons_of_mem b hb')

/-- When a list of tasks, none twice, gives a text back as it was, then each of them does. -/
theorem answer_eq_of_answerAll_eq (c : Context) {bs : List Builtin} (hbs : bs.Nodup) {t : Text}
    (h : answerAll php c bs t = t) : ∀ b ∈ bs, (b.taskWith php.tokens).answer c t = t := by
  by_cases hmem : trailingBlanks ∈ bs
  · obtain ⟨front, back, rfl⟩ := List.append_of_mem hmem
    rw [List.nodup_append, List.nodup_cons] at hbs
    obtain ⟨-, ⟨hback, -⟩, hdisjoint⟩ := hbs
    have hfront : trailingBlanks ∉ front := fun hf => hdisjoint _ hf _ List.mem_cons_self rfl
    rw [answerAll_append, answerAll_cons] at h
    have hbulk₁ := bulk_answerAll_le php c front t
    have hbulk₂ := bulk_answer_le php trailingBlanks c (answerAll php c front t)
    have hbulk₃ := bulk_answerAll_le php c back ((trailingBlanks.taskWith php.tokens).answer c (answerAll php c front t))
    rw [h] at hbulk₃
    -- A carriage return that is gone after the first part is gone in the end.
    have hfronts : ∀ b ∈ front, (b.taskWith php.tokens).answer c t = t := by
      refine answer_eq_of_bulk_eq php c hfront (hbulk₃.trans hbulk₂) fun hreturn => ?_
      by_contra hgone
      have := carriageReturn_notMem_answerAll php c back (carriageReturn_notMem_answer php trailingBlanks c hgone)
      rw [h] at this
      exact this hreturn
    rw [answerAll_eq_self php c hfronts] at h hbulk₂ hbulk₃
    have hbacks : ∀ b ∈ back, (b.taskWith php.tokens).answer c ((trailingBlanks.taskWith php.tokens).answer c t) =
        (trailingBlanks.taskWith php.tokens).answer c t := by
      refine answer_eq_of_bulk_eq php c hback (by rw [h]; exact hbulk₂) fun hreturn => ?_
      rw [h]
      by_contra hgone
      exact carriageReturn_notMem_answer php trailingBlanks c hgone hreturn
    rw [answerAll_eq_self php c hbacks] at h
    rw [h] at hbacks
    intro b hb
    rcases List.mem_append.1 hb with hb | hb
    · exact hfronts b hb
    · rcases List.mem_cons.1 hb with rfl | hb
      · exact h
      · exact hbacks b hb
  · refine answer_eq_of_bulk_eq php c hmem (by rw [h]) fun hreturn => ?_
    rwa [h]

end Builtin
end SourceTidy.Task
