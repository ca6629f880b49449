import SourceTidy.Proofs.Json.Reading
import SourceTidy.Task.JsonDocument

/-!
# What is reported of documents that are not JSON

A document of JSON is passed over in silence, and for any other text there is exactly one error, on the line of the first
position at which no document goes on like the text (`ReportsSyntax`). This is so exactly as long as nothing in the text is
too much for the reader (`json_syntax_is_reported_iff`): an integer of too many digits, or a container within too many others,
makes the task fail. How many are too many containers is a matter of the reader, and all of this holds whatever it is.
-/

namespace SourceTidy.Task

/-- What is asked of the response to a text that should be JSON. -/
structure ReportsSyntax (t : Text) (response : Response) : Prop where
  unchanged : response.outcome = .text t
  silent : response.acts = [] ↔ Json.IsDocument t
  reports : ¬ Json.IsDocument t → ∃ message line, response.acts = [.report ⟨.error, message, line⟩] ∧
    ∀ k, line = some k → ∃ n, Json.IsFirstRejected t n ∧ k = t.lineAt n
  /-- A number that JSON does not know may stand at no value. -/
  constant : ∀ p place opened b w rest, Json.Leads p place opened → Json.AllowsValue place opened → Json.AllBlank b →
    w ∈ Json.constants → t = p ++ (b ++ (w ++ rest)) → ¬ Json.IsDocument t
  /-- A byte order mark may not stand at the start. -/
  mark : t.head? = some Json.byteOrderMark → ¬ Json.IsDocument t
  empty : t = [] → ¬ Json.IsDocument t

/-- What makes the task fail is what is too much for the reader. -/
theorem outcome_checkJsonWithin (depth : Nat) (context : Context) (t : Text) :
    (checkJsonWithin depth context t).outcome = .text t ↔ ¬ Json.MeetsLimit depth t := by
  rw [Json.meetsLimit_iff, checkJsonWithin]
  cases Json.checkWithin depth t with
  | ok u => simp
  | error e => cases e <;> simp [jsonResponse, Json.Failure.IsLimit]

/-- A text that should be JSON is reported as it should be exactly when nothing in it is too much for the reader. -/
theorem json_syntax_is_reported_iff (depth : Nat) (context : Context) (t : Text) :
    ReportsSyntax t (checkJsonWithin depth context t) ↔ ¬ Json.MeetsLimit depth t := by
  constructor
  · intro h
    exact (outcome_checkJsonWithin depth context t).1 h.unchanged
  · intro hlimit
    have hok := Json.checkWithin_eq_ok_iff hlimit
    have hrefused {e : Json.Failure} (h : Json.checkWithin depth t = .error e) : ¬ Json.IsDocument t := by
      rw [← hok, h]
      rintro ⟨⟩
    have hconstant : ∀ p place opened b w rest, Json.Leads p place opened → Json.AllowsValue place opened →
        Json.AllBlank b → w ∈ Json.constants → t = p ++ (b ++ (w ++ rest)) → ¬ Json.IsDocument t := by
      rintro p place opened b w rest hp hplace hb hw rfl
      exact hrefused (Json.checkWithin_of_constant hlimit hp hplace hb hw)
    have hmark (h : t.head? = some Json.byteOrderMark) : ¬ Json.IsDocument t :=
      hrefused ((Json.checkWithin_eq depth t).trans (if_pos h))
    have hempty (h : t = []) : ¬ Json.IsDocument t := by
      subst h
      exact hrefused (e := .broken .value []) (by cbv)
    rcases Json.checkWithin_cases hlimit with hcheck | ⟨problem, rest, hcheck⟩ | ⟨w, hcheck⟩
    · have hdocument := hok.1 hcheck
      rw [checkJsonWithin, hcheck]
      exact ⟨rfl, iff_of_true rfl hdocument, fun h => absurd hdocument h, hconstant, hmark, hempty⟩
    · obtain ⟨n, hn, hline⟩ := Json.exists_isFirstRejected_of_broken hcheck
      have hdocument := hrefused hcheck
      rw [checkJsonWithin, hcheck]
      refine ⟨rfl, iff_of_false (List.cons_ne_nil _ _) hdocument, fun _ => ⟨_, _, rfl, fun k hk => ⟨n, hn, ?_⟩⟩, hconstant,
        hmark, hempty⟩
      rw [← Option.some.inj hk, hline]
    · have hdocument := hrefused hcheck
      rw [checkJsonWithin, hcheck]
      refine ⟨rfl, iff_of_false (List.cons_ne_nil _ _) hdocument, fun _ => ⟨_, none, rfl, fun k hk => ?_⟩, hconstant, hmark,
        hempty⟩
      cases hk

/-- An integer of as many ones. -/
def ones (n : Nat) : Text := List.replicate n ('1' : CodePoint)

theorem isNatural_ones {n : Nat} (hn : 0 < n) : Json.IsNatural (ones n) := by
  obtain ⟨n, rfl⟩ := Nat.exists_eq_add_one.2 hn
  refine ⟨⟨List.cons_ne_nil _ _, fun c hc => ?_⟩, fun rest heq => ?_⟩
  · rw [List.eq_of_mem_replicate hc]
    rfl
  · exact absurd (List.cons.inj heq).1 (by decide)

theorem isDocument_ones {n : Nat} (hn : 0 < n) : Json.IsDocument (ones n) := by
  have hnumber : Json.IsNumber (ones n) := by
    simpa only [List.nil_append, List.append_nil] using Json.IsNumber.parts .plus (isNatural_ones hn) .none .none
  exact ⟨[], ones n, [], Json.allBlank_nil, .scalar (.number hnumber), Json.allBlank_nil, (List.append_nil _).symm⟩

/-- An integer of too many ones is not taken in. -/
theorem checkWithin_ones {n : Nat} (depth : Nat) (hn : Json.maxDigits < n) :
    Json.checkWithin depth (ones n) = .error (.tooManyDigits n) := by
  have hnil {x : Text} (h : x <+: []) : x = [] := List.prefix_nil.1 h
  have hnumber := Json.number_of_long (r := []) .plus (isNatural_ones (Nat.zero_lt_of_lt hn)) (by simpa [ones] using hn)
    (Json.stops_nil _) (fun _ _ h => hnil h) (fun _ _ h => hnil h)
  have hscalar := Json.scalar_of_digits .plus (isNatural_ones (Nat.zero_lt_of_lt hn)).toIsDigits []
  rw [List.nil_append, List.append_nil] at hnumber hscalar
  rw [hnumber] at hscalar
  have hlength : (ones n).length = n := List.length_replicate
  rw [hlength] at hscalar
  obtain ⟨n, rfl⟩ := Nat.exists_eq_add_one.2 (Nat.zero_lt_of_lt hn)
  have hcons : ones (n + 1) = ('1' : CodePoint) :: ones n := rfl
  rw [hcons] at hscalar ⊢
  rw [Json.checkWithin_eq, if_neg (by rw [List.head?_cons]; decide), Json.readAt_eq, Json.skipBlanks_cons (by decide), Json.step,
    Json.stepValue_of_class (p := CodePoint.isAsciiDigit) (by decide) (by decide), hscalar]
  rfl

/-- An integer with one digit more than can be taken in is JSON, and the task fails. -/
theorem long_integer_fails :
    Json.IsDocument (ones 4301) ∧ (checkJson ⟨"a.json", false⟩ (ones 4301)).outcome = .failed (.tooManyDigits 4301) ∧
      ¬ ∀ t, ReportsSyntax t (checkJson ⟨"a.json", false⟩ t) := by
  have houtcome : (checkJson ⟨"a.json", false⟩ (ones 4301)).outcome = .failed (.tooManyDigits 4301) := by
    rw [checkJson, checkJsonWithin, checkWithin_ones _ (by decide)]
    rfl
  refine ⟨isDocument_ones (by decide), houtcome, fun h => ?_⟩
  rw [(h (ones 4301)).unchanged] at houtcome
  cases houtcome

end SourceTidy.Task
