import SourceTidy.Proofs.Json.Scalars

/-!
# Steps of reading a JSON document

The reading goes from place to place and takes a lexeme at each (`step`, `readAt_eq`). A step takes what the grammar lets come
next (`takes_of_step`), and it takes whatever that is, apart from what is too much for the reader (`step_of_takes`). What a
step does is settled within the line (`step_append`).
-/

namespace SourceTidy.Json

open Text (lineFeed)

/-! ## One lexeme after the other -/

/-- What a step leaves: what may come next, the containers that are open and the rest of the text; or nothing at the end. -/
abbrev Next := Option (Place × List Container × Text)

/-- A step into a container. -/
def enter (depth : Nat) (k : Container) (opened : List Container) (rest : Text) : Except Failure Next :=
  if depth ≤ opened.length then .error (.tooDeep k) else .ok (some (.first, k :: opened, rest))

/-- A step at a value. -/
def stepValue (depth : Nat) (opened : List Container) : Text → Except Failure Next
  | [] => .error (.broken .value [])
  | c :: rest =>
    if c = '[' then enter depth .array opened rest
    else if c = '\x7b' then enter depth .object opened rest
    else
      match scalar (c :: rest) with
      | .error e => .error e
      | .ok rest' => .ok (some (.after, opened, rest'))

/-- A step at the name of a member. -/
def stepName (opened : List Container) : Text → Except Failure Next
  | [] => .error (.broken .memberName [])
  | c :: rest =>
    if c = '"' then
      match string (c :: rest) rest with
      | .error e => .error e
      | .ok rest' => .ok (some (.colon, opened, rest'))
    else .error (.broken .memberName (c :: rest))

/-- A step at an item. -/
def stepItem (depth : Nat) (opened : List Container) (t : Text) : Container → Except Failure Next
  | .array => stepValue depth opened t
  | .object => stepName opened t

/-- A step at a place, in a text without blanks at its head. -/
def step (depth : Nat) : Place → List Container → Text → Except Failure Next
  | .value, opened, t => stepValue depth opened t
  | .name, opened, t => stepName opened t
  | .colon, _, [] => .error (.broken .colon [])
  | .colon, opened, c :: rest => if c = ':' then .ok (some (.value, opened, rest)) else .error (.broken .colon (c :: rest))
  | .first, [], t => .error (.broken .value t)
  | .first, k :: below, t =>
    if t.head? = some k.closing then .ok (some (.after, below, t.tail)) else stepItem depth (k :: below) t k
  | .after, [], [] => .ok none
  | .after, [], c :: rest => .error (.broken .extraData (c :: rest))
  | .after, _ :: _, [] => .error (.broken .comma [])
  | .after, k :: below, c :: rest =>
    if c = k.closing then .ok (some (.after, below, rest))
    else if c = ',' then .ok (some (k.next, k :: below, rest))
    else .error (.broken .comma (c :: rest))

/-- The reading of an item. -/
def readItem (depth : Nat) (opened : List Container) (t : Text) : Container → Except Failure Unit
  | .array => readValue depth opened t
  | .object => readMember depth opened t

/-- The reading of the first item of a container, or of its end. -/
def readFirst (depth : Nat) : List Container → Text → Except Failure Unit
  | [], t => .error (.broken .value t)
  | k :: below, t => if t.head? = some k.closing then readAfter depth below t.tail else readItem depth (k :: below) t k

/-- The reading of a colon and what comes behind it. -/
def readColon (depth : Nat) (opened : List Container) : Text → Except Failure Unit
  | [] => .error (.broken .colon [])
  | c :: rest => if c = ':' then readValue depth opened (skipBlanks rest) else .error (.broken .colon (c :: rest))

/-- The reading from a place on. -/
def readAt (depth : Nat) : Place → List Container → Text → Except Failure Unit
  | .value, opened, t => readValue depth opened (skipBlanks t)
  | .first, opened, t => readFirst depth opened (skipBlanks t)
  | .name, opened, t => readMember depth opened (skipBlanks t)
  | .colon, opened, t => readColon depth opened (skipBlanks t)
  | .after, opened, t => readAfter depth opened t

/-- The reading goes on from what a step leaves. -/
def readNext (depth : Nat) : Except Failure Next → Except Failure Unit
  | .error e => .error e
  | .ok none => .ok ()
  | .ok (some (place, opened, rest)) => readAt depth place opened rest

variable {depth : Nat} {t r s x w : Text} {place place' : Place} {opened opened' : List Container} {e : Failure}

theorem readFirst_cons (depth : Nat) (k : Container) (below : List Container) (c : CodePoint) (rest : Text) :
    readFirst depth (k :: below) (c :: rest) =
      if c = k.closing then readAfter depth below rest else readItem depth (k :: below) (c :: rest) k := by
  simp only [readFirst, List.head?_cons, Option.some_inj, List.tail_cons]

theorem readValue_eq (depth : Nat) (opened : List Container) (t : Text) :
    readValue depth opened t = readNext depth (stepValue depth opened t) := by
  cases t with
  | nil => rw [readValue]; rfl
  | cons c rest =>
    have henter (k : Container) (problem : Problem) (hproblem : readFirst depth (k :: opened) [] = .error (.broken problem [])) :
        readNext depth (enter depth k opened rest) =
          if depth ≤ opened.length then .error (.tooDeep k)
          else
            match skipBlanks rest with
            | [] => .error (.broken problem [])
            | d :: rest' => readFirst depth (k :: opened) (d :: rest') := by
      unfold enter
      split
      · rfl
      · rw [readNext, readAt]
        cases skipBlanks rest with
        | nil => exact hproblem
        | cons d rest' => rfl
    rw [readValue_cons, stepValue]
    split
    · rw [henter .array .value (by rw [readFirst, if_neg (by simp), readItem, readValue])]
      simp only [readFirst_cons]
      rfl
    · split
      · rw [henter .object .memberName (by rw [readFirst, if_neg (by simp), readItem, readMember])]
        simp only [readFirst_cons]
        rfl
      · cases scalar (c :: rest) <;> rfl

theorem readMember_eq (depth : Nat) (opened : List Container) (t : Text) :
    readMember depth opened t = readNext depth (stepName opened t) := by
  cases t with
  | nil => rw [readMember]; rfl
  | cons c rest =>
    rw [readMember_cons, stepName]
    split
    · cases string (c :: rest) rest with
      | error e => rfl
      | ok rest' =>
        simp only [readNext, readAt]
        cases skipBlanks rest' <;> rfl
    · rfl

/-- The reading takes one lexeme after the other, with the blanks before it. -/
theorem readAt_eq (depth : Nat) (place : Place) (opened : List Container) (t : Text) :
    readAt depth place opened t = readNext depth (step depth place opened (skipBlanks t)) := by
  cases place with
  | value => exact readValue_eq depth opened _
  | name => exact readMember_eq depth opened _
  | colon =>
    rw [readAt]
    cases skipBlanks t with
    | nil => rfl
    | cons c rest =>
      rw [readColon, step]
      split <;> rfl
  | first =>
    rw [readAt]
    cases opened with
    | nil => rfl
    | cons k below =>
      rw [readFirst, step]
      split
      · rfl
      · cases k with
        | array => exact readValue_eq depth _ _
        | object => exact readMember_eq depth _ _
  | after =>
    rw [readAt, readAfter_eq]
    cases opened with
    | nil => cases skipBlanks t <;> rfl
    | cons k below =>
      cases skipBlanks t with
      | nil => rfl
      | cons c rest =>
        rw [step]
        by_cases hclosed : c = k.closing
        · rw [if_pos hclosed]
          cases k <;> exact if_pos hclosed
        · rw [if_neg hclosed]
          by_cases hcomma : c = ','
          · rw [if_pos hcomma]
            cases k <;> exact (if_neg hclosed).trans (if_pos hcomma)
          · rw [if_neg hcomma]
            cases k <;> exact (if_neg hclosed).trans (if_neg hcomma)

/-! ## What a step takes -/

theorem exists_cons_of_takes (h : Takes place opened x place' opened') :
    ∃ c rest, x = c :: rest ∧ isBlank c = false ∧ (place = .after → goesOn c = false) := by
  cases h with
  | scalar hplace hv =>
    obtain ⟨c, rest, rfl, hc⟩ := hv.exists_cons
    exact ⟨c, rest, rfl, Sharp.isBlank_eq_false (p := startsScalar) (by decide) hc, fun h => absurd h hplace.ne_after⟩
  | opens k hplace => exact ⟨k.opening, [], rfl, by cases k <;> decide, fun h => absurd h hplace.ne_after⟩
  | closes k hplace => exact ⟨k.closing, [], rfl, by cases k <;> decide, fun _ => by cases k <;> decide⟩
  | comma k => exact ⟨comma, [], rfl, by decide, fun _ => by decide⟩
  | name hplace hn =>
    obtain ⟨i, -, rfl⟩ := hn
    exact ⟨quote, _, rfl, by decide, fun h => absurd h hplace.ne_after⟩
  | colon => exact ⟨colon, [], rfl, by decide, fun h => by cases h⟩

theorem takes_of_enter {k : Container} (hplace : AllowsValue place opened)
    (h : enter depth k opened t = .ok (some (place', opened', r))) : Takes place opened [k.opening] place' opened' ∧ t = r := by
  unfold enter at h
  split at h
  · cases h
  · cases h
    exact ⟨.opens k hplace, rfl⟩

theorem takes_of_stepValue (hplace : AllowsValue place opened)
    (h : stepValue depth opened t = .ok (some (place', opened', r))) : ∃ x, t = x ++ r ∧ Takes place opened x place' opened' := by
  cases t with
  | nil => cases h
  | cons c rest =>
    rw [stepValue] at h
    split at h
    · rename_i hc
      obtain ⟨htakes, rfl⟩ := takes_of_enter hplace h
      exact ⟨_, by rw [hc]; rfl, htakes⟩
    · split at h
      · rename_i hc
        obtain ⟨htakes, rfl⟩ := takes_of_enter hplace h
        exact ⟨_, by rw [hc]; rfl, htakes⟩
      · split at h
        · cases h
        · rename_i hscalar
          cases h
          obtain ⟨v, hv, ht⟩ := isScalar_of_scalar hscalar
          exact ⟨v, ht, .scalar hplace hv⟩

theorem takes_of_stepName (hplace : AllowsName place opened)
    (h : stepName opened t = .ok (some (place', opened', r))) : ∃ x, t = x ++ r ∧ Takes place opened x place' opened' := by
  cases t with
  | nil => cases h
  | cons c rest =>
    rw [stepName] at h
    split at h
    · rename_i hquote
      split at h
      · cases h
      · rename_i hstring
        cases h
        obtain ⟨i, hi, rfl⟩ := inside_of_string hstring
        refine ⟨quote :: (i ++ [quote]), ?_, .name hplace ⟨i, hi, rfl⟩⟩
        rw [hquote, List.cons_append, List.append_assoc, List.singleton_append]
    · cases h

/-- A step takes what the grammar lets come next. -/
theorem takes_of_step (h : step depth place opened t = .ok (some (place', opened', r))) :
    ∃ x, t = x ++ r ∧ Takes place opened x place' opened' := by
  cases place with
  | value => exact takes_of_stepValue (.inl rfl) h
  | name => exact takes_of_stepName (.inl rfl) h
  | colon =>
    cases t with
    | nil => cases h
    | cons c rest =>
      rw [step] at h
      split at h
      · rename_i hc
        cases h
        exact ⟨[colon], by rw [hc]; rfl, .colon⟩
      · cases h
  | first =>
    cases opened with
    | nil => cases h
    | cons k below =>
      rw [step] at h
      split at h
      · rename_i hhead
        cases h
        obtain ⟨rest, rfl⟩ := List.head?_eq_some_iff.1 hhead
        exact ⟨[k.closing], rfl, .closes k (.inl rfl)⟩
      · cases k with
        | array => exact takes_of_stepValue (.inr ⟨rfl, rfl⟩) h
        | object => exact takes_of_stepName (.inr ⟨rfl, rfl⟩) h
  | after =>
    match opened, t with
    | [], [] => cases h
    | [], c :: rest => cases h
    | _ :: _, [] => cases h
    | k :: below, c :: rest =>
      rw [step] at h
      split at h
      · rename_i hc
        cases h
        exact ⟨[k.closing], by rw [hc]; rfl, .closes k (.inr rfl)⟩
      · split at h
        · rename_i hc
          cases h
          exact ⟨[comma], by rw [hc]; rfl, .comma k⟩
        · cases h

theorem stepValue_ne_none : stepValue depth opened t ≠ .ok none := by
  intro h
  cases t with
  | nil => cases h
  | cons c rest =>
    simp only [stepValue, enter] at h
    repeat' split at h
    all_goals cases h

theorem stepName_ne_none : stepName opened t ≠ .ok none := by
  intro h
  cases t with
  | nil => cases h
  | cons c rest =>
    simp only [stepName] at h
    repeat' split at h
    all_goals cases h

/-- The reading comes to an end at the end of the text, when a value is behind and no container is open. -/
theorem end_of_step (h : step depth place opened t = .ok none) : place = .after ∧ opened = [] ∧ t = [] := by
  cases place with
  | value => exact absurd h stepValue_ne_none
  | name => exact absurd h stepName_ne_none
  | colon =>
    cases t with
    | nil => cases h
    | cons c rest =>
      rw [step] at h
      split at h <;> cases h
  | first =>
    cases opened with
    | nil => cases h
    | cons k below =>
      rw [step] at h
      split at h
      · cases h
      · cases k with
        | array => exact absurd h stepValue_ne_none
        | object => exact absurd h stepName_ne_none
  | after =>
    match opened, t with
    | [], [] => exact ⟨rfl, rfl, rfl⟩
    | [], c :: rest => cases h
    | _ :: _, [] => cases h
    | k :: below, c :: rest =>
      rw [step] at h
      split at h
      · cases h
      · split at h <;> cases h

/-! ## Why a step fails -/

/-- A failure that is no fault of the text. -/
def Failure.IsLimit : Failure → Prop
  | .tooManyDigits _ => True
  | .tooDeep _ => True
  | _ => False

/-- What is too much for the reader: an integer of too many digits, or a container within too many others. -/
def TooMuch (depth : Nat) (opened : List Container) (t : Text) : Prop :=
  LongInteger t ∨ (∃ (k : Container) (rest : Text), t = k.opening :: rest) ∧ depth ≤ opened.length

/-- Why a step fails: the grammar is broken within the line, a number that JSON does not know is named at a value, or a value
is too much for the reader. -/
inductive Fails (depth : Nat) (place : Place) (opened : List Container) (t : Text) (e : Failure) : Prop where
  | broken (h : BreaksInLine t e)
  | constant {w : Text} (hplace : AllowsValue place opened) (hw : w ∈ constants) (ht : w <+: t) (he : e = .constant w)
  | limit (hplace : AllowsValue place opened) (h : TooMuch depth opened t) (he : e.IsLimit)

theorem fails_of_stepValue (hplace : AllowsValue place opened) (h : stepValue depth opened t = .error e) :
    Fails depth place opened t e := by
  have henter {k : Container} {rest : Text} (h : enter depth k opened rest = .error e) :
      Fails depth place opened (k.opening :: rest) e := by
    unfold enter at h
    split at h
    · rename_i hdepth
      cases h
      exact .limit hplace (.inr ⟨⟨k, rest, rfl⟩, hdepth⟩) trivial
    · cases h
  cases t with
  | nil =>
    cases h
    exact .broken (breaksInLine_head .value [])
  | cons c rest =>
    rw [stepValue] at h
    split at h
    · rename_i hc
      subst hc
      exact henter (k := .array) h
    · split at h
      · rename_i hc
        subst hc
        exact henter (k := .object) h
      · split at h
        · rename_i hscalar
          cases h
          rcases reason_of_scalar hscalar with hbroken | ⟨w, hw, rfl, hprefix⟩ | ⟨⟨count, rfl⟩, hlong⟩
          · exact .broken hbroken
          · exact .constant hplace hw hprefix rfl
          · exact .limit hplace (.inl hlong) trivial
        · cases h

theorem fails_of_stepName (h : stepName opened t = .error e) : Fails depth place opened t e := by
  cases t with
  | nil =>
    cases h
    exact .broken (breaksInLine_head .memberName [])
  | cons c rest =>
    rw [stepName] at h
    split at h
    · rename_i hquote
      subst hquote
      split at h
      · rename_i hstring
        cases h
        exact .broken (breaksInLine_of_string hstring)
      · cases h
    · cases h
      exact .broken (breaksInLine_head .memberName _)

theorem fails_of_step (h : step depth place opened t = .error e) : Fails depth place opened t e := by
  cases place with
  | value => exact fails_of_stepValue (.inl rfl) h
  | name => exact fails_of_stepName h
  | colon =>
    cases t with
    | nil =>
      cases h
      exact .broken (breaksInLine_head .colon [])
    | cons c rest =>
      rw [step] at h
      split at h
      · cases h
      · cases h
        exact .broken (breaksInLine_head .colon _)
  | first =>
    cases opened with
    | nil =>
      cases h
      exact .broken (breaksInLine_head .value t)
    | cons k below =>
      rw [step] at h
      split at h
      · cases h
      · cases k with
        | array => exact fails_of_stepValue (.inr ⟨rfl, rfl⟩) h
        | object => exact fails_of_stepName h
  | after =>
    match opened, t with
    | [], [] => cases h
    | [], c :: rest =>
      cases h
      exact .broken (breaksInLine_head .extraData _)
    | _ :: _, [] =>
      cases h
      exact .broken (breaksInLine_head .comma [])
    | k :: below, c :: rest =>
      rw [step] at h
      split at h
      · cases h
      · split at h
        · cases h
        · cases h
          exact .broken (breaksInLine_head .comma _)

/-! ## What a step does at a value and at a name -/

theorem step_of_allowsValue (hplace : AllowsValue place opened) (ht : t.head? ≠ some Container.array.closing) :
    step depth place opened t = stepValue depth opened t := by
  rcases hplace with rfl | ⟨rfl, hhead⟩
  · rfl
  · obtain ⟨below, rfl⟩ := List.head?_eq_some_iff.1 hhead
    rw [step, if_neg ht]
    rfl

theorem step_of_allowsName (hplace : AllowsName place opened) (ht : t.head? ≠ some Container.object.closing) :
    step depth place opened t = stepName opened t := by
  rcases hplace with rfl | ⟨rfl, hhead⟩
  · rfl
  · obtain ⟨below, rfl⟩ := List.head?_eq_some_iff.1 hhead
    rw [step, if_neg ht]
    rfl

/-- A code point of a class that holds no bracket does not open or close a container. -/
theorem head?_ne_of_class {p : CodePoint → Bool} {c d : CodePoint} (hc : p c = true) (hd : p d = false) (rest : Text) :
    (c :: rest).head? ≠ some d := by
  intro h
  obtain rfl : c = d := Option.some.inj h
  rw [hc] at hd
  cases hd

theorem head?_opening_ne (k : Container) (rest : Text) : (k.opening :: rest).head? ≠ some Container.array.closing := by
  cases k with
  | array => exact head?_ne_of_class (p := (· == '[')) rfl (by decide) rest
  | object => exact head?_ne_of_class (p := (· == '\x7b')) rfl (by decide) rest

theorem stepValue_of_class {p : CodePoint → Bool} {c : CodePoint} (hc : p c = true)
    (hp : p Container.array.opening = false ∧ p Container.object.opening = false) (rest : Text) :
    stepValue depth opened (c :: rest) =
      match scalar (c :: rest) with
      | .error e => .error e
      | .ok rest' => .ok (some (.after, opened, rest')) := by
  have hne {d : CodePoint} (hd : p d = false) : c ≠ d := fun h => by
    rw [← h, hc] at hd
    cases hd
  have harray : c ≠ '[' := hne hp.1
  have hobject : c ≠ '\x7b' := hne hp.2
  rw [stepValue, if_neg harray, if_neg hobject]

/-- A step takes what the grammar lets come next, unless it is too much for the reader. -/
theorem step_of_takes (h : Takes place opened x place' opened') (hr : place' = .after → Stops goesOn r) :
    step depth place opened (x ++ r) = .ok (some (place', opened', r)) ∨
      ∃ e, e.IsLimit ∧ step depth place opened (x ++ r) = .error e := by
  cases h with
  | scalar hplace hv =>
    have hscalar := scalar_of_isScalar hv (hr rfl)
    obtain ⟨c, rest, rfl, hc⟩ := hv.exists_cons
    rw [List.cons_append] at hscalar ⊢
    rw [step_of_allowsValue hplace (head?_ne_of_class hc (by decide) _), stepValue_of_class hc (by decide)]
    rcases hscalar with hscalar | ⟨count, hscalar⟩
    · exact .inl (by rw [hscalar])
    · exact .inr ⟨.tooManyDigits count, trivial, by rw [hscalar]⟩
  | opens k hplace =>
    have henter : step depth place opened ([k.opening] ++ r) = enter depth k opened r := by
      rw [List.singleton_append, step_of_allowsValue hplace (head?_opening_ne k r)]
      cases k <;> rfl
    rw [henter, enter]
    split
    · exact .inr ⟨.tooDeep k, trivial, rfl⟩
    · exact .inl rfl
  | closes k hplace =>
    left
    rw [List.singleton_append]
    rcases hplace with rfl | rfl
    · exact if_pos rfl
    · exact if_pos rfl
  | comma k =>
    left
    rw [List.singleton_append, step, if_neg (by cases k <;> decide), if_pos rfl]
  | name hplace hn =>
    left
    obtain ⟨i, hi, rfl⟩ := hn
    rw [List.cons_append, step_of_allowsName hplace (head?_ne_of_class (p := (· == quote)) rfl (by decide) _), stepName,
      if_pos rfl, List.append_assoc, List.singleton_append, string_of_inside _ hi]
  | colon =>
    left
    rw [List.singleton_append, step, if_pos rfl]

theorem step_of_constant (hplace : AllowsValue place opened) (hw : w ∈ constants) (r : Text) :
    step depth place opened (w ++ r) = .error (.constant w) := by
  have hconstants : ∀ w ∈ constants, w ≠ [] ∧ ∀ c ∈ w.head?, (c == minus || c.isAsciiLetter) = true := by decide
  have hscalar := scalar_of_constant hw r
  obtain ⟨hne, hhead⟩ := hconstants w hw
  obtain ⟨c, rest, rfl⟩ := List.exists_cons_of_ne_nil hne
  have hc := hhead c rfl
  rw [List.cons_append] at hscalar ⊢
  rw [step_of_allowsValue hplace (head?_ne_of_class (p := fun c => c == minus || c.isAsciiLetter) hc (by decide) _),
    stepValue_of_class (p := fun c => c == minus || c.isAsciiLetter) hc (by decide), hscalar]

theorem LongInteger.exists_cons (h : LongInteger t) : ∃ c rest, t = c :: rest ∧ startsScalar c = true := by
  cases h with
  | intro hsign hdigits hlong hend hfraction hexponent =>
    obtain ⟨c, rest, rfl, hc, -⟩ := hdigits.exists_cons
    cases hsign with
    | plus => exact ⟨c, _, rfl, by simp [startsScalar, hc]⟩
    | minus => exact ⟨minus, _, rfl, rfl⟩

theorem TooMuch.exists_cons (h : TooMuch depth opened t) : ∃ c rest, t = c :: rest ∧ isBlank c = false := by
  rcases h with hlong | ⟨⟨k, rest, rfl⟩, -⟩
  · obtain ⟨c, rest, rfl, hc⟩ := hlong.exists_cons
    exact ⟨c, rest, rfl, Sharp.isBlank_eq_false (p := startsScalar) (by decide) hc⟩
  · exact ⟨k.opening, rest, rfl, by cases k <;> decide⟩

theorem step_of_tooMuch (hplace : AllowsValue place opened) (h : TooMuch depth opened t) :
    ∃ e, e.IsLimit ∧ step depth place opened t = .error e := by
  rcases h with hlong | ⟨⟨k, rest, rfl⟩, hdepth⟩
  · obtain ⟨count, hscalar⟩ := scalar_of_longInteger hlong
    obtain ⟨c, rest, rfl, hc⟩ := hlong.exists_cons
    refine ⟨.tooManyDigits count, trivial, ?_⟩
    rw [step_of_allowsValue hplace (head?_ne_of_class hc (by decide) _), stepValue_of_class hc (by decide), hscalar]
  · refine ⟨.tooDeep k, trivial, ?_⟩
    rw [step_of_allowsValue hplace (head?_opening_ne k rest)]
    cases k <;> exact if_pos hdepth

/-! ## A text that goes on -/

/-- What a step leaves of a text that goes on. -/
def Next.extend (s : Text) : Next → Next := Option.map fun n => (n.1, n.2.1, n.2.2 ++ s)

theorem enter_append (depth : Nat) (k : Container) (opened : List Container) (t s : Text) :
    enter depth k opened (t ++ s) = Json.extend s (Next.extend s) (enter depth k opened t) := by
  unfold enter
  split <;> rfl

theorem stepValue_append (ht : lineFeed ∈ t) (s : Text) :
    stepValue depth opened (t ++ s) = extend s (Next.extend s) (stepValue depth opened t) := by
  cases t with
  | nil => cases ht
  | cons c rest =>
    have hscalar := scalar_append ht s
    rw [List.cons_append] at hscalar ⊢
    rw [stepValue, stepValue, enter_append, enter_append, hscalar]
    split
    · rfl
    · split
      · rfl
      · cases scalar (c :: rest) <;> rfl

theorem stepName_append (ht : lineFeed ∈ t) (s : Text) :
    stepName opened (t ++ s) = extend s (Next.extend s) (stepName opened t) := by
  cases t with
  | nil => cases ht
  | cons c rest =>
    rw [List.cons_append, stepName, stepName]
    split
    · rename_i hquote
      subst hquote
      have hstring := string_append (quote :: rest) ((List.mem_cons.1 ht).resolve_left (by decide)) s
      rw [List.cons_append] at hstring
      rw [hstring]
      cases string (quote :: rest) rest <;> rfl
    · rfl

/-- What a step does is settled within the line. -/
theorem step_append (ht : lineFeed ∈ t) (s : Text) :
    step depth place opened (t ++ s) = extend s (Next.extend s) (step depth place opened t) := by
  have hcons : ∃ c rest, t = c :: rest := List.exists_cons_of_ne_nil (List.ne_nil_of_mem ht)
  cases place with
  | value => exact stepValue_append ht s
  | name => exact stepName_append ht s
  | colon =>
    obtain ⟨c, rest, rfl⟩ := hcons
    rw [List.cons_append, step, step]
    split <;> rfl
  | first =>
    cases opened with
    | nil => rfl
    | cons k below =>
      have hhead : (t ++ s).head? = t.head? := by
        obtain ⟨c, rest, rfl⟩ := hcons
        rfl
      rw [step, step, hhead]
      split
      · obtain ⟨c, rest, rfl⟩ := hcons
        rfl
      · cases k with
        | array => exact stepValue_append ht s
        | object => exact stepName_append ht s
  | after =>
    obtain ⟨c, rest, rfl⟩ := hcons
    cases opened with
    | nil => rfl
    | cons k below =>
      rw [List.cons_append, step, step]
      split
      · rfl
      · split <;> rfl

theorem step_of_append {u : Text} (h : step depth place opened (x ++ (u ++ r)) = .ok (some (place', opened', u ++ r)))
    (hu : lineFeed ∈ u) (s : Text) : step depth place opened (x ++ (u ++ s)) = .ok (some (place', opened', u ++ s)) := by
  have hmem : lineFeed ∈ x ++ u := List.mem_append_right x hu
  rw [← List.append_assoc, step_append hmem] at h ⊢
  cases hstep : step depth place opened (x ++ u) with
  | error e =>
    rw [hstep] at h
    cases h
  | ok next =>
    rw [hstep] at h
    have hnext : Next.extend r next = some (place', opened', u ++ r) := Except.ok.inj h
    obtain ⟨⟨place₁, opened₁, rest⟩, rfl, heq⟩ := Option.map_eq_some_iff.1 hnext
    simp only [Prod.mk.injEq, List.append_cancel_right_eq] at heq
    obtain ⟨rfl, rfl, rfl⟩ := heq
    rfl

end SourceTidy.Json
