import SourceTidy.Proofs.Json.Steps

/-!
# Reading a JSON document

What a whole reading does follows from what its steps do: it goes where a text leads (`readAt_of_leads`), and where it stops
the text has led until there (`readAt_stops`). So the documents are taken, apart from those in which there is too much for the
reader (`checkWithin_eq_ok_iff`), and the line of a failure is that of the first position at which no document goes on like the text
(`exists_isFirstRejected_of_broken`).
-/

namespace SourceTidy.Json

open Text (lineFeed)

variable {depth : Nat} {t r : Text} {place : Place} {opened : List Container} {e : Failure}

/-! ## Where a reading goes -/

/-- No number goes on with a blank. -/
theorem AllBlank.stops_append {b : Text} (hb : AllBlank b) (hr : Stops goesOn r) : Stops goesOn (b ++ r) := by
  cases b with
  | nil => exact hr
  | cons d b =>
    rw [List.cons_append, stops_cons, ← Bool.not_eq_true]
    intro hd
    have := Sharp.isBlank_eq_false (p := goesOn) (by decide) hd
    rw [(List.forall_mem_cons.1 hb).1] at this
    cases this

/-- The reading goes where a text leads, unless there is too much for the reader before. -/
theorem readAt_of_leads (depth : Nat) {p : Text} (h : Leads p place opened) (hr : place = .after → Stops goesOn r) :
    readAt depth .value [] (p ++ r) = readAt depth place opened r ∨
      ∃ e, e.IsLimit ∧ readAt depth .value [] (p ++ r) = .error e := by
  induction h generalizing r with
  | start => exact .inl rfl
  | @step p b x place place' opened opened' _ hb hx ih =>
    obtain ⟨c, rest, rfl, hc, hafter⟩ := exists_cons_of_takes hx
    have hstops : place = .after → Stops goesOn (b ++ (c :: rest ++ r)) := fun hplace => hb.stops_append (hafter hplace)
    have hread : readAt depth place opened (b ++ (c :: rest ++ r)) = readNext depth (step depth place opened (c :: rest ++ r)) := by
      rw [readAt_eq, skipBlanks_append hb, List.cons_append, skipBlanks_cons hc]
    rw [List.append_assoc, List.append_assoc]
    rcases ih hstops with hih | hih
    · rcases step_of_takes hx hr with hstep | ⟨e, he, hstep⟩
      · exact .inl (by rw [hih, hread, hstep]; rfl)
      · exact .inr ⟨e, he, by rw [hih, hread, hstep]; rfl⟩
    · exact .inr hih

theorem readAt_of_isDocument (depth : Nat) (h : IsDocument t) :
    readAt depth .value [] t = .ok () ∨ ∃ e, e.IsLimit ∧ readAt depth .value [] t = .error e := by
  obtain ⟨p, b, hp, hb, rfl⟩ := isDocument_iff_leads.1 h
  have hblank : skipBlanks b = [] := by
    rw [← List.append_nil b, skipBlanks_append hb]
    rfl
  have hstops : Stops goesOn b := by
    rw [← List.append_nil b]
    exact hb.stops_append (stops_nil goesOn)
  have hend : readAt depth .after [] b = .ok () := by
    rw [readAt_eq, hblank]
    rfl
  rw [← hend]
  exact readAt_of_leads depth hp fun _ => hstops

/-- A reading that gets where it should, or to what is too much for the reader, breaks no grammar. -/
theorem ne_broken_of_isLimit {result reading : Except Failure Unit}
    (hresult : ∀ problem rest, result ≠ .error (.broken problem rest))
    (h : reading = result ∨ ∃ e, e.IsLimit ∧ reading = .error e) (problem : Problem) (rest : Text) :
    reading ≠ .error (.broken problem rest) := by
  rcases h with rfl | ⟨e, he, rfl⟩
  · exact hresult problem rest
  · rintro heq
    cases heq
    exact he

theorem readAt_ne_broken (depth : Nat) (h : IsDocument t) (problem : Problem) (rest : Text) :
    readAt depth .value [] t ≠ .error (.broken problem rest) :=
  ne_broken_of_isLimit (fun _ _ heq => by cases heq) (readAt_of_isDocument depth h) problem rest

/-- How a reading stops: at a place and in front of a text, where a step ends it or fails. -/
inductive StopsAt (depth : Nat) (place : Place) (opened : List Container) (u : Text) (result : Except Failure Unit) : Prop where
  | done (h : step depth place opened (skipBlanks u) = .ok none) (hresult : result = .ok ())
  | failed {e : Failure} (h : step depth place opened (skipBlanks u) = .error e) (hresult : result = .error e)

/-- Where a reading stops, the text has led until there. Behind what has been taken the text could go on in any way: as long
as the line where the reading stops is the same, the reading would get there as well. -/
theorem readAt_stops (depth : Nat) {p : Text} (h : Leads p place opened) (t : Text) :
    ∃ x u place' opened', t = x ++ u ∧ Leads (p ++ x) place' opened' ∧
      StopsAt depth place' opened' u (readAt depth place opened t) ∧
      ∀ u₀ g s, u = u₀ ++ g → lineFeed ∈ u₀ →
        readAt depth place opened (x ++ (u₀ ++ s)) = readAt depth place' opened' (u₀ ++ s) := by
  induction hn : t.length using Nat.strong_induction_on generalizing p place opened t with
  | _ n ih =>
    have hread := readAt_eq depth place opened t
    cases hstep : step depth place opened (skipBlanks t) with
    | error e =>
      rw [hstep] at hread
      exact ⟨[], t, place, opened, rfl, by rwa [List.append_nil], .failed hstep hread, fun _ _ _ _ _ => rfl⟩
    | ok next =>
      rw [hstep] at hread
      cases next with
      | none => exact ⟨[], t, place, opened, rfl, by rwa [List.append_nil], .done hstep hread, fun _ _ _ _ _ => rfl⟩
      | some next =>
        obtain ⟨place₁, opened₁, r⟩ := next
        obtain ⟨y, hy, htakes⟩ := takes_of_step hstep
        obtain ⟨b, hb, ht⟩ := exists_blanks t
        obtain ⟨c, rest, hcons, hc, -⟩ := exists_cons_of_takes htakes
        rw [hy] at ht hstep
        have hlength : r.length < n := by
          rw [← hn, ht, hcons]
          simp only [List.length_append, List.length_cons]
          omega
        obtain ⟨x, u, place', opened', rfl, hleads, hstops, hlocal⟩ := ih _ hlength (h.step hb htakes) r rfl
        have heq : p ++ (b ++ y) ++ x = p ++ (b ++ (y ++ x)) := by simp only [List.append_assoc]
        rw [heq] at hleads
        refine ⟨b ++ (y ++ x), u, place', opened', by simp only [ht, List.append_assoc], hleads, ?_, ?_⟩
        · rw [hread]
          exact hstops
        · rintro u₀ g s rfl hu₀
          have hmem : lineFeed ∈ x ++ u₀ := List.mem_append_right x hu₀
          rw [← List.append_assoc x] at hstep
          have hagain := step_of_append hstep hmem s
          rw [List.append_assoc] at hagain
          rw [List.append_assoc, List.append_assoc, readAt_eq, skipBlanks_append hb, hcons, List.cons_append,
            skipBlanks_cons hc, ← List.cons_append, ← hcons, hagain]
          exact hlocal u₀ g s rfl hu₀

/-! ## What is refused -/

/-- A text in which the reading gets to something that is too much for the reader. -/
def MeetsLimit (depth : Nat) (t : Text) : Prop :=
  ∃ p place opened b r, Leads p place opened ∧ AllowsValue place opened ∧ AllBlank b ∧ TooMuch depth opened r ∧ t = p ++ (b ++ r)

theorem checkWithin_eq (depth : Nat) (t : Text) :
    checkWithin depth t =
      if t.head? = some byteOrderMark then .error (.broken .byteOrderMark t) else readAt depth .value [] t := rfl

/-- The grammar has no place for a byte order mark at the start. -/
theorem readAt_of_byteOrderMark (depth : Nat) (h : t.head? = some byteOrderMark) :
    readAt depth .value [] t = .error (.broken .value t) := by
  obtain ⟨rest, rfl⟩ := List.head?_eq_some_iff.1 h
  have hscalar : scalar (byteOrderMark :: rest) = .error (.broken .value (byteOrderMark :: rest)) := by cbv
  have hskip : skipBlanks (byteOrderMark :: rest) = byteOrderMark :: rest := skipBlanks_cons (by decide) rest
  rw [readAt_eq, hskip, step, stepValue, if_neg (by decide), if_neg (by decide), hscalar]
  rfl

/-- A text is read from its start, apart from a byte order mark, and there the grammar would be broken anyway. -/
theorem checkWithin_eq_readAt (h : ∀ problem rest, readAt depth .value [] t ≠ .error (.broken problem rest)) :
    checkWithin depth t = readAt depth .value [] t := by
  rw [checkWithin_eq, if_neg]
  exact fun hmark => h _ _ (readAt_of_byteOrderMark depth hmark)

theorem not_isLimit_of_breaksInLine (h : BreaksInLine t e) : ¬ e.IsLimit := by
  obtain ⟨problem, rest, y, rfl, -, -⟩ := h
  exact id

theorem readAt_of_meetsLimit (h : MeetsLimit depth t) : ∃ e, e.IsLimit ∧ readAt depth .value [] t = .error e := by
  obtain ⟨p, place, opened, b, r, hp, hplace, hb, hmuch, rfl⟩ := h
  obtain ⟨e, he, hstep⟩ := step_of_tooMuch hplace hmuch
  obtain ⟨c, rest, rfl, hc⟩ := hmuch.exists_cons
  rcases readAt_of_leads depth (r := b ++ c :: rest) hp fun h => absurd h hplace.ne_after with hread | hread
  · exact ⟨e, he, by rw [hread, readAt_eq, skipBlanks_append hb, skipBlanks_cons hc, hstep]; rfl⟩
  · exact hread

/-- The reading fails for no fault of the text exactly when it gets to something that is too much for the reader. -/
theorem meetsLimit_iff : MeetsLimit depth t ↔ ∃ e, e.IsLimit ∧ checkWithin depth t = .error e := by
  constructor
  · intro h
    obtain ⟨e, he, hread⟩ := readAt_of_meetsLimit h
    have hfails : readAt depth .value [] t = .ok () ∨ ∃ e, e.IsLimit ∧ readAt depth .value [] t = .error e := .inr ⟨e, he, hread⟩
    exact ⟨e, he, (checkWithin_eq_readAt (ne_broken_of_isLimit (fun _ _ heq => by cases heq) hfails)).trans hread⟩
  · rintro ⟨e, he, hcheck⟩
    rw [checkWithin_eq] at hcheck
    split at hcheck
    · cases hcheck
      exact absurd he id
    · obtain ⟨x, u, place, opened, rfl, hleads, hstops, -⟩ := readAt_stops depth .start t
      obtain ⟨b, hb, hu⟩ := exists_blanks u
      rw [hcheck] at hstops
      cases hstops with
      | done _ hresult => cases hresult
      | failed hstep hresult =>
        cases hresult
        cases fails_of_step hstep with
        | broken h => exact absurd he (not_isLimit_of_breaksInLine h)
        | constant _ _ _ heq =>
          subst heq
          exact absurd he id
        | limit hplace hmuch _ => exact ⟨x, place, opened, b, _, hleads, hplace, hb, hmuch, by rw [← hu]⟩

/-- The documents are taken, and nothing else is. -/
theorem checkWithin_eq_ok_iff (hlimit : ¬ MeetsLimit depth t) : checkWithin depth t = .ok () ↔ IsDocument t := by
  constructor
  · intro hcheck
    rw [checkWithin_eq] at hcheck
    split at hcheck
    · cases hcheck
    · obtain ⟨x, u, place, opened, rfl, hleads, hstops, -⟩ := readAt_stops depth .start t
      rw [hcheck] at hstops
      cases hstops with
      | failed _ hresult => cases hresult
      | done hstep _ =>
        obtain ⟨rfl, rfl, hnil⟩ := end_of_step hstep
        obtain ⟨b, hb, hu⟩ := exists_blanks u
        rw [hnil, List.append_nil] at hu
        exact isDocument_iff_leads.2 ⟨x, u, hleads, hu ▸ hb, rfl⟩
  · intro hdocument
    have hread := readAt_of_isDocument depth hdocument
    rw [← checkWithin_eq_readAt (readAt_ne_broken depth hdocument)] at hread
    exact hread.resolve_right fun h => hlimit (meetsLimit_iff.2 h)

/-- Where nothing is too much for the reader, it takes the text, or the grammar is broken, or a number that JSON does not know
is named. -/
theorem checkWithin_cases (hlimit : ¬ MeetsLimit depth t) :
    checkWithin depth t = .ok () ∨ (∃ problem rest, checkWithin depth t = .error (.broken problem rest)) ∨
      ∃ w, checkWithin depth t = .error (.constant w) := by
  rw [meetsLimit_iff] at hlimit
  cases hcheck : checkWithin depth t with
  | ok u => exact .inl rfl
  | error e =>
    cases e with
    | broken problem rest => exact .inr (.inl ⟨problem, rest, rfl⟩)
    | constant w => exact .inr (.inr ⟨w, rfl⟩)
    | tooManyDigits count => exact absurd ⟨.tooManyDigits count, trivial, hcheck⟩ hlimit
    | tooDeep k => exact absurd ⟨.tooDeep k, trivial, hcheck⟩ hlimit

/-- A number that JSON does not know is refused by its name, wherever a value may come. -/
theorem checkWithin_of_constant {p b w : Text} (hlimit : ¬ MeetsLimit depth (p ++ (b ++ (w ++ r)))) (hp : Leads p place opened)
    (hplace : AllowsValue place opened) (hb : AllBlank b) (hw : w ∈ constants) :
    checkWithin depth (p ++ (b ++ (w ++ r))) = .error (.constant w) := by
  have hskip : skipBlanks (b ++ (w ++ r)) = w ++ r := by
    have hconstants : ∀ w ∈ constants, w ≠ [] ∧ ∀ c ∈ w.head?, isBlank c = false := by decide
    obtain ⟨hne, hhead⟩ := hconstants w hw
    obtain ⟨c, rest, rfl⟩ := List.exists_cons_of_ne_nil hne
    rw [skipBlanks_append hb, List.cons_append, skipBlanks_cons (hhead c rfl)]
  have hread := readAt_of_leads depth (r := b ++ (w ++ r)) hp fun h => absurd h hplace.ne_after
  have hconstant : readAt depth place opened (b ++ (w ++ r)) = .error (.constant w) := by
    rw [readAt_eq, hskip, step_of_constant hplace hw]
    rfl
  rw [hconstant] at hread
  rw [← checkWithin_eq_readAt (ne_broken_of_isLimit (fun _ _ heq => by cases heq) hread)] at hread
  exact hread.resolve_right fun h => hlimit (meetsLimit_iff.2 h)

/-! ## Where a text is rejected -/

/-- The first position of a text at which no document goes on like it: what is before it begins a document, and with what
stands at it no longer. When all of the text begins a document, this is its end. -/
structure IsFirstRejected (t : Text) (n : Nat) : Prop where
  le : n ≤ t.length
  viable : Viable (t.take n)
  rejected : n < t.length → ¬ Viable (t.take (n + 1))

theorem lineAt_append {p y : Text} (hy : lineFeed ∉ y) (r : Text) :
    Text.lineAt (p ++ (y ++ r)) (p.length + y.length) = Text.lineAt (p ++ (y ++ r)) p.length := by
  have hlong : (p ++ (y ++ r)).take (p.length + y.length) = p ++ y := by
    rw [← List.length_append, ← List.append_assoc, List.take_left]
  rw [Text.lineAt, Text.lineAt, hlong, List.take_left, List.count_append, List.count_eq_zero_of_not_mem hy, Nat.add_zero]

/-- Between what begins a document and what does not, there is a first position that is rejected; if there is no line feed
between, it is on the same line. -/
theorem exists_isFirstRejected {p y : Text} (ht : t = p ++ (y ++ r)) (hp : Viable p) (hy : lineFeed ∉ y)
    (hr : ∀ c rest, r = c :: rest → ¬ Viable (p ++ (y ++ [c]))) :
    ∃ n, IsFirstRejected t n ∧ t.lineAt n = t.lineAt p.length := by
  induction y generalizing p with
  | nil =>
    refine ⟨p.length, ⟨by simp [ht], by rwa [ht, List.take_left], fun hn => ?_⟩, rfl⟩
    cases r with
    | nil =>
      rw [ht] at hn
      simp at hn
    | cons c rest =>
      have htake : t.take (p.length + 1) = p ++ ([] ++ [c]) := by
        rw [ht, List.take_length_add_append]
        rfl
      rw [htake]
      exact hr c rest rfl
  | cons d y ih =>
    obtain ⟨hd, hy'⟩ := List.ne_and_not_mem_of_not_mem_cons hy
    have htake : t.take (p.length + 1) = p ++ [d] := by
      rw [ht, List.take_length_add_append]
      rfl
    by_cases hviable : Viable (p ++ [d])
    · have ht' : t = (p ++ [d]) ++ (y ++ r) := by rw [ht, List.append_assoc]; rfl
      obtain ⟨n, hn, hline⟩ := ih ht' hviable hy' fun c rest hcons => by
        rw [List.append_assoc]
        exact hr c rest hcons
      refine ⟨n, hn, hline.trans ?_⟩
      have hsame := lineAt_append (p := p) (y := [d]) (by simpa using hd) (y ++ r)
      rw [← List.append_assoc [d], List.singleton_append, ← ht] at hsame
      rw [List.length_append]
      exact hsame
    · refine ⟨p.length, ⟨by simp [ht], by rwa [ht, List.take_left], fun _ => ?_⟩, rfl⟩
      rwa [htake]

/-- Where the grammar is broken within a line, no document goes on to its end like the text. -/
theorem not_viable_of_broken {x b w g : Text} {problem : Problem} {rest : Text} (hw : skipBlanks (b ++ (w ++ g)) = w ++ g)
    (hlocal : ∀ s, readAt depth .value [] (x ++ (b ++ (w ++ s))) = readAt depth place opened (b ++ (w ++ s))) (hb : AllBlank b)
    (hmem : lineFeed ∈ w) (hstep : step depth place opened (w ++ g) = .error (.broken problem rest)) :
    ¬ Viable (x ++ (b ++ w)) := by
  rintro ⟨s, hdocument⟩
  have hskip : skipBlanks (b ++ (w ++ s)) = w ++ s := by
    obtain ⟨c, w, rfl⟩ := List.exists_cons_of_ne_nil (List.ne_nil_of_mem hmem)
    rw [skipBlanks_append hb, List.cons_append, skipBlanks_cons (isBlank_of_skipBlanks_eq_cons hw)]
  have hbroken : ∃ rest', step depth place opened (w ++ s) = .error (.broken problem rest') := by
    rw [step_append hmem] at hstep ⊢
    cases h : step depth place opened w with
    | ok next =>
      rw [h] at hstep
      cases hstep
    | error e =>
      rw [h] at hstep
      cases e with
      | broken problem' rest' =>
        cases hstep
        exact ⟨_, rfl⟩
      | constant _ => cases hstep
      | tooManyDigits _ => cases hstep
      | tooDeep _ => cases hstep
  obtain ⟨rest', hbroken⟩ := hbroken
  refine readAt_ne_broken depth hdocument problem rest' ?_
  rw [List.append_assoc, List.append_assoc, hlocal, readAt_eq, hskip, hbroken]
  rfl

/-- The line of a broken grammar is that of the first position that is rejected. -/
theorem exists_isFirstRejected_of_broken {problem : Problem} {rest : Text}
    (h : checkWithin depth t = .error (.broken problem rest)) :
    ∃ n, IsFirstRejected t n ∧ t.lineAt (offsetOf t rest) = t.lineAt n := by
  rw [checkWithin_eq] at h
  split at h
  · rename_i hmark
    cases h
    obtain ⟨more, rfl⟩ := List.head?_eq_some_iff.1 hmark
    have hnil : Viable [] := by
      have := Leads.start.viable allBlank_nil
      rwa [List.append_nil] at this
    refine ⟨0, ⟨Nat.zero_le _, hnil, fun _ => ?_⟩, by rw [offsetOf, Nat.sub_self]⟩
    rintro ⟨s, hdocument⟩
    exact readAt_ne_broken depth hdocument _ _ (readAt_of_byteOrderMark depth rfl)
  · obtain ⟨x, u, place, opened, rfl, hleads, hstops, hlocal⟩ := readAt_stops depth .start t
    rw [h] at hstops
    cases hstops with
    | done _ hresult => cases hresult
    | failed hstep hresult =>
      cases hresult
      obtain ⟨b, hb, hu⟩ := exists_blanks u
      cases fails_of_step hstep with
      | constant _ _ _ heq => cases heq
      | limit _ _ he => exact absurd he id
      | broken hbroken =>
        obtain ⟨problem', rest', y, heq, hskip, hy⟩ := hbroken
        cases heq
        rw [hskip] at hu hstep
        -- The rest of the line where the reading stops holds no line feed either.
        have hline : lineFeed ∉ rest.takeWhile (· != lineFeed) := fun hmem => by simpa using List.mem_takeWhile_imp hmem
        have hrest := List.takeWhile_append_dropWhile (p := (· != lineFeed)) (l := rest)
        generalize rest.takeWhile (· != lineFeed) = a at hline hrest
        have hafter := stops_dropWhile (· != lineFeed) rest
        generalize rest.dropWhile (· != lineFeed) = r at hafter hrest
        subst hrest
        have ht : x ++ u = (x ++ b) ++ ((y ++ a) ++ r) := by
          rw [hu]
          simp only [List.append_assoc]
        have hfeeds : lineFeed ∉ y ++ a := fun hmem => (List.mem_append.1 hmem).elim hy hline
        obtain ⟨n, hn, hsame⟩ := exists_isFirstRejected ht (hleads.viable hb) hfeeds fun c g hcons => by
          subst hcons
          obtain rfl : c = lineFeed := by simpa [stops_cons] using hafter
          have hw : skipBlanks (b ++ ((y ++ (a ++ [lineFeed])) ++ g)) = (y ++ (a ++ [lineFeed])) ++ g := by
            simp only [List.append_assoc, List.singleton_append]
            rw [← hu, hskip]
          have hu₀ : u = (b ++ (y ++ (a ++ [lineFeed]))) ++ g := by
            rw [hu]
            simp only [List.append_assoc, List.singleton_append]
          have hread (s : Text) : readAt depth .value [] (x ++ (b ++ ((y ++ (a ++ [lineFeed])) ++ s))) =
              readAt depth place opened (b ++ ((y ++ (a ++ [lineFeed])) ++ s)) := by
            simpa only [List.append_assoc] using hlocal (b ++ (y ++ (a ++ [lineFeed]))) g s hu₀ (by simp)
          have hbreaks : step depth place opened ((y ++ (a ++ [lineFeed])) ++ g) =
              .error (.broken problem (a ++ lineFeed :: g)) := by
            simpa only [List.append_assoc, List.singleton_append] using hstep
          simpa only [List.append_assoc] using not_viable_of_broken hw hread hb (by simp) hbreaks
        refine ⟨n, hn, ?_⟩
        rw [hsame, ht]
        have hoffset : offsetOf ((x ++ b) ++ ((y ++ a) ++ r)) (a ++ r) = (x ++ b).length + y.length := by
          simp only [offsetOf, List.length_append]
          omega
        rw [hoffset, List.append_assoc y]
        exact lineAt_append hy (a ++ r)

end SourceTidy.Json
