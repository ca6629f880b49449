import SourceTidy.Proofs.Glob.MaskSet

/-!
# Histories of sets

Sets are made, masks are added to them, and snapshots are taken, in any order; a set is called by its number. Whatever
happens, a set that is not frozen holds the first occurrences of the masks it was given (`run_of_mutable`), and a frozen one
stays what it is (`run_of_frozen`). A snapshot is a new set that is built from the masks of another; it has the same masks,
since all sets hold masks that a set can be built from (`isTidy_run`).
-/

namespace SourceTidy.MaskSet

/-- What is done to the sets that there are. -/
inductive Act where
  /-- A set is made. -/
  | make (masks : List Text)
  /-- A mask is added to a set. -/
  | add (i : Nat) (mask : Text)
  /-- Masks are added to a set in order. -/
  | extend (i : Nat) (masks : List Text)
  /-- A snapshot of a set is taken. -/
  | freeze (i : Nat)
  deriving DecidableEq, Repr

/-- The answer to it. -/
inductive Answer where
  | done
  /-- The set is frozen. -/
  | refused (e : FrozenError)
  /-- This is the set. -/
  | set (i : Nat)
  /-- There is no set with this number. -/
  | unknown
  deriving DecidableEq, Repr

/-- Exchanges a set for what becomes of it, if the change is not refused. -/
def change (sets : List MaskSet) (i : Nat) (f : MaskSet → Except FrozenError MaskSet) : List MaskSet × Answer :=
  match sets[i]? with
  | none => (sets, .unknown)
  | some s =>
    match f s with
    | .ok s' => (sets.set i s', .done)
    | .error e => (sets, .refused e)

/-- The sets after something was done, and the answer. A snapshot of a frozen set is that set, any other is a new one. -/
def step (sets : List MaskSet) : Act → List MaskSet × Answer
  | .make masks => (sets ++ [ofList masks], .set sets.length)
  | .add i mask => change sets i (·.add mask)
  | .extend i masks => change sets i (·.extend masks)
  | .freeze i =>
    match sets[i]? with
    | none => (sets, .unknown)
    | some s => if s.isFrozen then (sets, .set i) else (sets ++ [s.freeze], .set sets.length)

/-- The sets after a history. -/
def run (sets : List MaskSet) (acts : List Act) : List MaskSet := acts.foldl (fun sets act => (step sets act).1) sets

/-- The masks that something done gives to a set. -/
def Act.given (i : Nat) : Act → List Text
  | .add j mask => if j = i then [mask] else []
  | .extend j masks => if j = i then masks else []
  | .make _ => []
  | .freeze _ => []

/-- The masks that a history gives to a set. -/
def given (i : Nat) (acts : List Act) : List Text := acts.flatMap (Act.given i)

@[simp] theorem run_nil (sets : List MaskSet) : run sets [] = sets := rfl

@[simp] theorem run_cons (sets : List MaskSet) (act : Act) (acts : List Act) :
    run sets (act :: acts) = run (step sets act).1 acts := rfl

theorem run_append (sets : List MaskSet) (acts more : List Act) : run sets (acts ++ more) = run (run sets acts) more :=
  List.foldl_append

/-! ## Single changes -/

theorem add_eq (s : MaskSet) (mask : Text) :
    s.add mask = if s.isFrozen then .error ⟨mask⟩ else .ok ⟨insert s.masks mask, false⟩ := by
  rw [add]
  cases h : s.isFrozen <;> simp

theorem extend_nil (s : MaskSet) : s.extend [] = .ok s := rfl

/-- A frozen set takes no list of masks but the empty one. -/
theorem extend_of_frozen {s : MaskSet} (h : s.isFrozen = true) (mask : Text) (masks : List Text) :
    s.extend (mask :: masks) = .error ⟨mask⟩ := by
  rw [extend, add_eq, if_pos h]
  rfl

theorem extend_of_mutable {s : MaskSet} (h : s.isFrozen = false) (masks : List Text) :
    s.extend masks = .ok ⟨masks.foldl insert s.masks, false⟩ := by
  induction masks generalizing s with
  | nil => rw [extend, List.foldl_nil, ← h]
  | cons mask masks ih =>
    rw [extend, add_eq, if_neg (by simp [h])]
    exact ih rfl

theorem change_of_ok {sets : List MaskSet} {i : Nat} {s s' : MaskSet} {f : MaskSet → Except FrozenError MaskSet}
    (hs : sets[i]? = some s) (hf : f s = .ok s') : change sets i f = (sets.set i s', .done) := by
  rw [change, hs]
  simp only [hf]

theorem change_of_error {sets : List MaskSet} {i : Nat} {s : MaskSet} {e : FrozenError}
    {f : MaskSet → Except FrozenError MaskSet} (hs : sets[i]? = some s) (hf : f s = .error e) :
    change sets i f = (sets, .refused e) := by
  rw [change, hs]
  simp only [hf]

/-- A list without masks changes nothing. -/
theorem step_extend_nil {sets : List MaskSet} {i : Nat} (hi : i < sets.length) :
    step sets (.extend i []) = (sets, .done) := by
  have hs : sets[i]? = some sets[i] := List.getElem?_eq_getElem hi
  have hchange : step sets (.extend i []) = (sets.set i sets[i], .done) := change_of_ok hs (extend_nil _)
  rw [hchange, List.set_getElem_self]

/-- A change leaves all other sets as they are. -/
theorem getElem?_change_of_ne {i j : Nat} (h : j ≠ i) (sets : List MaskSet) (f : MaskSet → Except FrozenError MaskSet) :
    (change sets j f).1[i]? = sets[i]? := by
  rw [change]
  split
  · rfl
  · split
    · exact List.getElem?_set_ne h
    · rfl

/-- To make a set or to take a snapshot leaves all sets as they are. -/
theorem getElem?_step_make {sets : List MaskSet} {i : Nat} {s : MaskSet} (h : sets[i]? = some s) (masks : List Text) :
    (step sets (.make masks)).1[i]? = some s := by
  rw [step, List.getElem?_append_left (List.getElem?_eq_some_iff.1 h).1, h]

theorem getElem?_step_freeze {sets : List MaskSet} {i : Nat} {s : MaskSet} (h : sets[i]? = some s) (j : Nat) :
    (step sets (.freeze j)).1[i]? = some s := by
  rw [step]
  split
  · exact h
  · split
    · exact h
    · rw [List.getElem?_append_left (List.getElem?_eq_some_iff.1 h).1, h]

/-! ## Histories -/

/-- What one act makes of a set that is not frozen. -/
theorem step_of_mutable {sets : List MaskSet} {i : Nat} {masks : List Text} (h : sets[i]? = some ⟨firsts masks, false⟩)
    (act : Act) : (step sets act).1[i]? = some ⟨firsts (masks ++ act.given i), false⟩ := by
  have hi : i < sets.length := (List.getElem?_eq_some_iff.1 h).1
  cases act with
  | make more =>
    rw [Act.given, List.append_nil]
    exact getElem?_step_make h more
  | add j mask =>
    rw [step, Act.given]
    by_cases hj : j = i
    · subst hj
      rw [if_pos rfl, change_of_ok h (add_eq _ mask), List.getElem?_set_self hi, insert_firsts]
    · rw [if_neg hj, List.append_nil, getElem?_change_of_ne hj, h]
  | extend j more =>
    rw [step, Act.given]
    by_cases hj : j = i
    · subst hj
      rw [if_pos rfl, change_of_ok h (extend_of_mutable rfl more), List.getElem?_set_self hi, foldl_insert_firsts]
    · rw [if_neg hj, List.append_nil, getElem?_change_of_ne hj, h]
  | freeze j =>
    rw [Act.given, List.append_nil]
    exact getElem?_step_freeze h j

/-- A set that is not frozen holds the first occurrences of the masks it was given. -/
theorem run_of_mutable {sets : List MaskSet} {i : Nat} {masks : List Text} (h : sets[i]? = some ⟨firsts masks, false⟩)
    (acts : List Act) : (run sets acts)[i]? = some ⟨firsts (masks ++ given i acts), false⟩ := by
  induction acts generalizing sets masks with
  | nil => simpa [given] using h
  | cons act acts ih =>
    have := ih (step_of_mutable h act)
    rwa [List.append_assoc] at this

section Frozen

variable {sets : List MaskSet} {i : Nat} {s : MaskSet} (h : sets[i]? = some s) (hs : s.isFrozen = true)
include h hs

theorem step_add_of_frozen (mask : Text) : step sets (.add i mask) = (sets, .refused ⟨mask⟩) :=
  change_of_error h ((add_eq s mask).trans (if_pos hs))

theorem step_extend_of_frozen (mask : Text) (masks : List Text) :
    step sets (.extend i (mask :: masks)) = (sets, .refused ⟨mask⟩) :=
  change_of_error h (extend_of_frozen hs mask masks)

theorem step_freeze_of_frozen : step sets (.freeze i) = (sets, .set i) := by
  simp only [step, h, if_pos hs]

/-- No act changes a frozen set. -/
theorem step_of_frozen (act : Act) : (step sets act).1[i]? = some s := by
  cases act with
  | make masks => exact getElem?_step_make h masks
  | add j mask =>
    by_cases hj : j = i
    · rw [hj, step_add_of_frozen h hs, h]
    · rw [step, getElem?_change_of_ne hj, h]
  | extend j masks =>
    by_cases hj : j = i
    · subst hj
      cases masks with
      | nil => rw [step_extend_nil (List.getElem?_eq_some_iff.1 h).1, h]
      | cons mask masks => rw [step_extend_of_frozen h hs, h]
    · rw [step, getElem?_change_of_ne hj, h]
  | freeze j => exact getElem?_step_freeze h j

/-- A frozen set stays what it is. -/
theorem run_of_frozen (acts : List Act) : (run sets acts)[i]? = some s := by
  induction acts generalizing sets with
  | nil => exact h
  | cons act acts ih => exact ih (step_of_frozen h hs act)

end Frozen

/-! ## Snapshots -/

/-- The sets hold masks that make a set of themselves. -/
def IsTidy (sets : List MaskSet) : Prop := ∀ s ∈ sets, firsts s.masks = s.masks

theorem IsTidy.change {sets : List MaskSet} (h : IsTidy sets) (i : Nat) {f : MaskSet → Except FrozenError MaskSet}
    (hf : ∀ s s', firsts s.masks = s.masks → f s = .ok s' → firsts s'.masks = s'.masks) : IsTidy (change sets i f).1 := by
  rw [MaskSet.change]
  split
  · exact h
  · rename_i s hs
    split
    · rename_i s' hs'
      intro u hu
      rcases List.mem_or_eq_of_mem_set hu with hu | rfl
      · exact h u hu
      · exact hf s u (h s (List.mem_of_getElem? hs)) hs'
    · exact h

/-- A snapshot of such a set is that set, frozen. -/
theorem freeze_eq {s : MaskSet} (h : firsts s.masks = s.masks) : s.freeze = ⟨s.masks, true⟩ := by
  rw [freeze]
  split
  · rename_i hs
    rw [← hs]
  · rw [ofList_eq, h]

theorem isTidy_step {sets : List MaskSet} (h : IsTidy sets) (act : Act) : IsTidy (step sets act).1 := by
  have happend {s : MaskSet} (hs : firsts s.masks = s.masks) : IsTidy (sets ++ [s]) := by
    intro u hu
    rcases List.mem_append.1 hu with hu | hu
    · exact h u hu
    · rwa [List.mem_singleton.1 hu]
  cases act with
  | make masks => exact happend (ofList_eq masks ▸ firsts_firsts masks)
  | add i mask =>
    refine h.change i fun s s' hs hadd => ?_
    rw [add_eq] at hadd
    split at hadd
    · cases hadd
    · cases hadd
      rw [← hs, insert_firsts, firsts_firsts]
  | extend i masks =>
    refine h.change i fun s s' hs hextend => ?_
    cases hfrozen : s.isFrozen with
    | false =>
      rw [extend_of_mutable hfrozen] at hextend
      cases hextend
      rw [← hs, foldl_insert_firsts, firsts_firsts]
    | true =>
      cases masks with
      | nil =>
        cases hextend
        exact hs
      | cons mask masks =>
        rw [extend_of_frozen hfrozen] at hextend
        cases hextend
  | freeze i =>
    rw [step]
    split
    · exact h
    · rename_i s hs
      split
      · exact h
      · have htidy := h s (List.mem_of_getElem? hs)
        exact happend (freeze_eq htidy ▸ htidy)

theorem isTidy_run {sets : List MaskSet} (h : IsTidy sets) (acts : List Act) : IsTidy (run sets acts) := by
  induction acts generalizing sets with
  | nil => exact h
  | cons act acts ih => exact ih (isTidy_step h act)

/-- A snapshot is a new set with the masks of the one it is taken of. -/
theorem step_freeze_of_mutable {sets : List MaskSet} (htidy : IsTidy sets) {i : Nat} {s : MaskSet}
    (h : sets[i]? = some s) (hs : s.isFrozen = false) :
    step sets (.freeze i) = (sets ++ [⟨s.masks, true⟩], .set sets.length) := by
  simp only [step, h]
  rw [if_neg (by simp [hs]), freeze_eq (htidy s (List.mem_of_getElem? h))]

/-! ## Where sets come from -/

theorem length_change (sets : List MaskSet) (i : Nat) (f : MaskSet → Except FrozenError MaskSet) :
    (change sets i f).1.length = sets.length := by
  rw [change]
  split
  · rfl
  · split
    · exact List.length_set
    · rfl

/-- A history makes the set with a number, or takes it as a snapshot of one that is not frozen. -/
def Begins (acts : List Act) (i : Nat) : Prop :=
  ∃ before act after, acts = before ++ act :: after ∧ (run [] before).length = i ∧
    ((∃ masks, act = .make masks) ∨ ∃ j s, act = .freeze j ∧ (run [] before)[j]? = some s ∧ s.isFrozen = false)

/-- An act adds one set at most, and what it adds is made or a snapshot. -/
theorem length_step (sets : List MaskSet) (act : Act) :
    (step sets act).1.length = sets.length ∨
      (step sets act).1.length = sets.length + 1 ∧
        ((∃ masks, act = .make masks) ∨ ∃ j s, act = .freeze j ∧ sets[j]? = some s ∧ s.isFrozen = false) := by
  cases act with
  | make masks => exact .inr ⟨List.length_append, .inl ⟨masks, rfl⟩⟩
  | add i mask => exact .inl (length_change sets i _)
  | extend i masks => exact .inl (length_change sets i _)
  | freeze i =>
    rw [step]
    split
    · exact .inl rfl
    · rename_i s hs
      cases hfrozen : s.isFrozen with
      | true => exact .inl rfl
      | false => exact .inr ⟨List.length_append, .inr ⟨i, s, rfl, hs, hfrozen⟩⟩

/-- Every set begins somewhere in its history. -/
theorem begins_of_lt {acts : List Act} {i : Nat} (h : i < (run [] acts).length) : Begins acts i := by
  induction acts using List.reverseRecOn with
  | nil => cases h
  | append_singleton acts act ih =>
    by_cases hi : i < (run [] acts).length
    · obtain ⟨before, act', after, rfl, hlength, hact⟩ := ih hi
      exact ⟨before, act', after ++ [act], by simp, hlength, hact⟩
    · -- the last act has added the set
      rw [run_append, run_cons, run_nil] at h
      rcases length_step (run [] acts) act with hlength | ⟨hlength, hact⟩
      · exact absurd (hlength ▸ h) hi
      · exact ⟨acts, act, [], rfl, by omega, hact⟩

/-! ## All that holds of them -/

/-- Whatever is done to sets, each of them keeps what it should.

Every set was made or is a snapshot of one that was not frozen. A set that was made holds the first occurrences of all masks
it was given, stripped and without the blank ones, so that all sets hold different masks that are stripped and not blank. A
frozen set takes no masks, but an empty list of them is no fault, and it stays what it is. It is its own snapshot, and any
other snapshot is a new set that has the masks of the one it was taken of at that moment, and keeps them. -/
theorem sets_keep_first_masks (before : List Act) :
    (∀ i < (run [] before).length, Begins before i) ∧
    (∀ masks after, (run [] (before ++ .make masks :: after))[(run [] before).length]? =
      some ⟨firsts (masks ++ given (run [] before).length after), false⟩) ∧
    (∀ s ∈ run [] before, s.masks.Nodup ∧ ∀ m ∈ s.masks, m.strip = m ∧ m ≠ []) ∧
    (∀ i < (run [] before).length, step (run [] before) (.extend i []) = (run [] before, .done)) ∧
    (∀ i s, (run [] before)[i]? = some s → s.isFrozen = true →
      (∀ mask, step (run [] before) (.add i mask) = (run [] before, .refused ⟨mask⟩)) ∧
      (∀ mask masks, step (run [] before) (.extend i (mask :: masks)) = (run [] before, .refused ⟨mask⟩)) ∧
      step (run [] before) (.freeze i) = (run [] before, .set i) ∧
      ∀ after, (run [] (before ++ after))[i]? = some s) ∧
    ∀ i s, (run [] before)[i]? = some s → s.isFrozen = false →
      (step (run [] before) (.freeze i)).2 = .set (run [] before).length ∧
      ∃ snapshot : MaskSet, snapshot.isFrozen = true ∧ snapshot.masks = s.masks ∧
        (∀ name, snapshot.accepts name = s.accepts name) ∧
        ∀ after, (run [] (before ++ .freeze i :: after))[(run [] before).length]? = some snapshot := by
  have htidy : IsTidy (run [] before) := isTidy_run (fun s hs => absurd hs List.not_mem_nil) before
  refine ⟨fun i => begins_of_lt, ?_, ?_, fun i => step_extend_nil, ?_, ?_⟩
  · intro masks after
    rw [run_append, run_cons]
    apply run_of_mutable
    rw [step, ofList_eq]
    exact List.getElem?_concat_length
  · intro s hs
    rw [← htidy s hs]
    exact ⟨nodup_firsts s.masks, fun m => stripped_of_mem_firsts⟩
  · intro i s h hs
    refine ⟨step_add_of_frozen h hs, step_extend_of_frozen h hs, step_freeze_of_frozen h hs, fun after => ?_⟩
    rw [run_append]
    exact run_of_frozen h hs after
  · intro i s h hs
    have hstep := step_freeze_of_mutable htidy h hs
    refine ⟨by rw [hstep], ⟨s.masks, true⟩, rfl, rfl, fun name => rfl, fun after => ?_⟩
    rw [run_append, run_cons, hstep]
    exact run_of_frozen List.getElem?_concat_length rfl after

/-- A set that is given a mask twice, then a blank one, and goes on after a snapshot was taken of it. The snapshot refuses what
the set takes. -/
theorem snapshot_stays_behind :
    run [] [.make [" *.php ", "*.php"], .add 0 "\t", .freeze 0, .add 0 "*.js", .add 1 "*.md", .freeze 1] =
        [⟨["*.php", "*.js"], false⟩, ⟨["*.php"], true⟩] ∧
      (run [] [.make [" *.php ", "*.php"], .add 0 "\t", .freeze 0, .add 0 "*.js", .add 1 "*.md", .freeze 1])[1]? =
        some ⟨["*.php"], true⟩ ∧
      step [⟨["*.php"], false⟩, ⟨["*.php"], true⟩] (.add 1 "*.md") =
        ([⟨["*.php"], false⟩, ⟨["*.php"], true⟩], .refused ⟨"*.md"⟩) := by
  have hbefore : run [] [.make [" *.php ", "*.php"], .add 0 "\t"] = [⟨["*.php"], false⟩] := by decide
  have hsnapshot : run [] [.make [" *.php ", "*.php"], .add 0 "\t", .freeze 0] =
      [⟨["*.php"], false⟩, ⟨["*.php"], true⟩] := by decide
  obtain ⟨-, -, -, -, -, hmutable⟩ := sets_keep_first_masks [.make [" *.php ", "*.php"], .add 0 "\t"]
  obtain ⟨-, -, -, -, hfrozen, -⟩ := sets_keep_first_masks [.make [" *.php ", "*.php"], .add 0 "\t", .freeze 0]
  rw [hbefore] at hmutable
  rw [hsnapshot] at hfrozen
  obtain ⟨-, ⟨masks, isFrozen⟩, hs, hmasks, -, hafter⟩ := hmutable 0 ⟨["*.php"], false⟩ rfl rfl
  cases hs
  cases hmasks
  exact ⟨by decide, hafter [.add 0 "*.js", .add 1 "*.md", .freeze 1], (hfrozen 1 ⟨["*.php"], true⟩ rfl rfl).1 "*.md"⟩

end SourceTidy.MaskSet
