import SourceTidy.Tree.Walk

/-!
# Walks that do the same

Two walks over one tree come to the same files as long as they see the same tree at every file. So what relates the states
before and after each visit relates those before and after the walks (`Walk.simulates_run`). Often this holds only for walks
that end in a state with some property, one that a later state has only if the earlier ones have it.

Two uses of this are singled out: if what one walk does mimics what another does, then so do the walks; and what each visit
preserves, a walk preserves.
-/

namespace SourceTidy

variable {σ τ ε ε' : Type}

/-- One step simulates another on related states: if the first ends in a good state, then it started from a good one, and
the second ends in a state that is related to it. -/
structure Simulates (Good : σ → Prop) (R : σ → τ → Prop) (f : σ → Except ε σ) (g : τ → Except ε' τ) : Prop where
  back : ∀ s s', f s = .ok s' → Good s' → Good s
  forth : ∀ s s' t, R s t → f s = .ok s' → Good s' → ∃ t', g t = .ok t' ∧ R s' t'

namespace Simulates

variable {Good : σ → Prop} {R : σ → τ → Prop}

theorem ok : Simulates Good R (Except.ok : σ → Except ε σ) (Except.ok : τ → Except ε' τ) where
  back s s' hs hgood := by
    cases hs
    exact hgood
  forth s s' t hR hs hgood := by
    cases hs
    exact ⟨t, rfl, hR⟩

theorem bind {f f' : σ → Except ε σ} {g g' : τ → Except ε' τ} (h : Simulates Good R f g) (h' : Simulates Good R f' g') :
    Simulates Good R (fun s => f s >>= f') (fun t => g t >>= g') where
  back s s' hs hgood := by
    cases hf : f s with
    | error e =>
      simp only [hf] at hs
      cases hs
    | ok s₁ =>
      simp only [hf] at hs
      exact h.back s s₁ hf (h'.back s₁ s' hs hgood)
  forth s s' t hR hs hgood := by
    cases hf : f s with
    | error e =>
      simp only [hf] at hs
      cases hs
    | ok s₁ =>
      simp only [hf] at hs
      obtain ⟨t₁, hg, hR₁⟩ := h.forth s s₁ t hR hf (h'.back s₁ s' hs hgood)
      obtain ⟨t', hg', hR'⟩ := h'.forth s₁ s' t₁ hR₁ hs hgood
      refine ⟨t', ?_, hR'⟩
      simp only [hg]
      exact hg'

theorem foldlM {α : Type} {f : σ → α → Except ε σ} {g : τ → α → Except ε' τ}
    (h : ∀ a, Simulates Good R (f · a) (g · a)) (xs : List α) :
    Simulates Good R (fun s => xs.foldlM f s) (fun t => xs.foldlM g t) := by
  induction xs with
  | nil => exact ok
  | cons a xs ih =>
    simp only [List.foldlM_cons]
    exact (h a).bind ih

/-- A step that always fails simulates anything. -/
theorem error (e : σ → ε) (g : τ → Except ε' τ) : Simulates Good R (fun s => .error (e s)) g where
  back _ _ hs := nomatch hs
  forth _ _ _ _ hs := nomatch hs

/-- A step may depend on what is read off its state, if the same is read off related states. -/
theorem read {α : Type} {a : σ → α} {b : τ → α} (hread : ∀ s t, R s t → b t = a s) {f : α → σ → Except ε σ}
    {g : α → τ → Except ε' τ} (h : ∀ x, Simulates Good R (f x) (g x)) :
    Simulates Good R (fun s => f (a s) s) (fun t => g (b t) t) where
  back s s' hs hgood := (h (a s)).back s s' hs hgood
  forth s s' t hR hs hgood := by
    simp only [hread s t hR]
    exact (h (a s)).forth s s' t hR hs hgood

theorem ite {c : σ → Bool} {d : τ → Bool} (hread : ∀ s t, R s t → d t = c s) {f f' : σ → Except ε σ}
    {g g' : τ → Except ε' τ} (h : Simulates Good R f g) (h' : Simulates Good R f' g') :
    Simulates Good R (fun s => if c s then f s else f' s) (fun t => if d t then g t else g' t) := by
  refine Simulates.read (a := c) hread (f := fun x s => if x then f s else f' s) (g := fun x t => if x then g t else g' t)
    fun x => ?_
  cases x with
  | true => exact h
  | false => exact h'

end Simulates

namespace Walk

section Handle

variable {visit : Path → σ → Except ε σ} {p : Path} {s s' : σ}

theorem handle_of_ok (h : visit p s = .ok s') : handle visit p s = .ok s' := by
  rw [handle, h]
  rfl

theorem handle_of_error {e : ε} (h : visit p s = .error e) : handle visit p s = .error (.stopped e) := by
  rw [handle, h]
  rfl

/-- Something is done at a path without a failure when the visit has none. -/
theorem handle_eq_ok (h : handle visit p s = .ok s') : visit p s = .ok s' := by
  cases hv : visit p s with
  | error e =>
    rw [handle_of_error hv] at h
    cases h
  | ok s₁ =>
    rw [handle_of_ok hv] at h
    cases h
    rfl

end Handle

/-- What is done next depends on whether there is a file; if the system does not take the path, nothing is. -/
theorem fileAt_bind (w : Walk) (view : σ → Tree) (p : Path) (s : σ) (next : Bool → Except (WalkError σ ε) σ) :
    w.fileAt view p s >>= next =
      match (view s).isFile w.work p with
      | .ok isFile => next isFile
      | .error failure => .error (.refused s failure) := by
  unfold fileAt
  cases (view s).isFile w.work p with
  | ok isFile => rfl
  | error failure => rfl

section Simulation

variable {Good : σ → Prop} {R : σ → τ → Prop} {visit : Path → σ → Except ε σ} {visit' : Path → τ → Except ε' τ}
  (h : ∀ p, Simulates Good R (visit p) (visit' p)) (view : σ → Tree) (view' : τ → Tree)
  (hview : ∀ s t, R s t → view' t = view s)

include hview in
theorem simulates_fileAt (w : Walk) (p : Path) {f : Bool → σ → Except (WalkError σ ε) σ}
    {g : Bool → τ → Except (WalkError τ ε') τ} (hnext : ∀ isFile, Simulates Good R (f isFile) (g isFile)) :
    Simulates Good R (fun s => w.fileAt view p s >>= (f · s)) (fun t => w.fileAt view' p t >>= (g · t)) := by
  simp only [fileAt_bind]
  refine Simulates.read (a := fun s => (view s).isFile w.work p) (fun s t hR => by rw [hview s t hR])
    (f := fun x s => match x with
      | .ok isFile => f isFile s
      | .error failure => .error (.refused s failure))
    (g := fun x t => match x with
      | .ok isFile => g isFile t
      | .error failure => .error (.refused t failure)) fun x => ?_
  cases x with
  | ok isFile => exact hnext isFile
  | error failure => exact .error _ _

include h

theorem simulates_handle (p : Path) : Simulates Good R (handle visit p) (handle visit' p) where
  back s s' hs hgood := (h p).back s s' (handle_eq_ok hs) hgood
  forth s s' t hR hs hgood := by
    obtain ⟨t', hv', hR'⟩ := (h p).forth s s' t hR (handle_eq_ok hs) hgood
    exact ⟨t', handle_of_ok hv', hR'⟩

include hview

theorem simulates_visitFile (w : Walk) (p : Path) :
    Simulates Good R (w.visitFile view visit p) (w.visitFile view' visit' p) := by
  refine simulates_fileAt view view' hview w p (f := fun isFile s => if isFile then handle visit p s else .ok s)
    (g := fun isFile t => if isFile then handle visit' p t else .ok t) fun isFile => ?_
  cases isFile with
  | true => exact simulates_handle h p
  | false => exact .ok

theorem simulates_within (w : Walk) (depth : Nat) (directory : Path) :
    Simulates Good R (w.within view visit depth directory) (w.within view' visit' depth directory) := by
  induction depth generalizing directory with
  | zero => exact .ok
  | succ depth ih =>
    have hdirectory (n : Text) : Simulates Good R
        (fun s => if w.enters (view s) (directory.child n) then w.within view visit depth (directory.child n) s
          else .ok s)
        (fun t => if w.enters (view' t) (directory.child n) then w.within view' visit' depth (directory.child n) t
          else .ok t) :=
      .ite (fun s t hR => by rw [hview s t hR]) (ih (directory.child n)) .ok
    -- The names of both parts are read before anything is done, so the steps are compared along the names in one tree.
    refine Simulates.read (a := view) hview
      (f := fun tree s => (w.fileNames tree directory).foldlM (fun s n => w.visitFile view visit (directory.child n) s) s >>=
        fun s => (w.directoryNames tree directory).foldlM (fun s n =>
          if w.enters (view s) (directory.child n) then w.within view visit depth (directory.child n) s else .ok s) s)
      (g := fun tree t => (w.fileNames tree directory).foldlM (fun t n => w.visitFile view' visit' (directory.child n) t) t >>=
        fun t => (w.directoryNames tree directory).foldlM (fun t n =>
          if w.enters (view' t) (directory.child n) then w.within view' visit' depth (directory.child n) t else .ok t) t)
      fun tree => ?_
    exact (Simulates.foldlM (fun n => simulates_visitFile h view view' hview w (directory.child n)) _).bind
      (Simulates.foldlM hdirectory _)

/-- Walks simulate each other when what is done at every file does. -/
theorem simulates_run (w : Walk) (root : Path) :
    Simulates Good R (w.run view visit root) (w.run view' visit' root) := by
  have hdirectory : Simulates Good R
      (fun s => if (view s).isDirectory w.work root then w.within view visit (maxDepth (view s)) root s
        else .error (.missing root))
      (fun t => if (view' t).isDirectory w.work root then w.within view' visit' (maxDepth (view' t)) root t
        else .error (.missing root)) := by
    refine .ite (fun s t hR => by rw [hview s t hR]) ?_ (.error _ _)
    exact Simulates.read (a := fun s => maxDepth (view s)) (fun s t hR => by rw [hview s t hR])
      (f := fun depth => w.within view visit depth root) (g := fun depth => w.within view' visit' depth root)
      fun depth => simulates_within h view view' hview w depth root
  refine simulates_fileAt view view' hview w root
    (f := fun isFile s => if isFile then handle visit root s
      else if (view s).isDirectory w.work root then w.within view visit (maxDepth (view s)) root s
      else .error (.missing root))
    (g := fun isFile t => if isFile then handle visit' root t
      else if (view' t).isDirectory w.work root then w.within view' visit' (maxDepth (view' t)) root t
      else .error (.missing root)) fun isFile => ?_
  cases isFile with
  | true => exact simulates_handle h root
  | false => exact hdirectory

end Simulation
end Walk

/-- One step mimics another: if the first ends in a good state, then it started from a good one, and the second ends
there too. -/
def Mimics (Good : σ → Prop) (f g : σ → Except ε σ) : Prop :=
  ∀ s s', f s = .ok s' → Good s' → Good s ∧ g s = .ok s'

/-- To mimic a step is to simulate it on equal states. -/
theorem mimics_iff {Good : σ → Prop} {f g : σ → Except ε σ} : Mimics Good f g ↔ Simulates Good Eq f g := by
  constructor
  · intro h
    refine ⟨fun s s' hs hgood => (h s s' hs hgood).1, ?_⟩
    intro s s' t hst hs hgood
    subst hst
    exact ⟨s', (h s s' hs hgood).2, rfl⟩
  · intro h s s' hs hgood
    obtain ⟨t', ht', rfl⟩ := h.forth s s' s rfl hs hgood
    exact ⟨h.back s s' hs hgood, ht'⟩

namespace Walk

/-- Walks mimic each other when what is done at every file does. -/
theorem mimics_run {Good : σ → Prop} {visit visit' : Path → σ → Except ε σ}
    (h : ∀ p, Mimics Good (visit p) (visit' p)) (w : Walk) (view : σ → Tree) (root : Path) :
    Mimics Good (w.run view visit root) (w.run view visit' root) := by
  have hvisit (p : Path) : Simulates Good Eq (visit p) (visit' p) := mimics_iff.1 (h p)
  exact mimics_iff.2 (simulates_run hvisit view view (fun s t hst => by rw [hst]) w root)

/-- What every visit preserves, a walk preserves. -/
theorem run_preserves (w : Walk) (view : σ → Tree) {visit : Path → σ → Except ε σ} {P : σ → Prop}
    (hvisit : ∀ p s s', P s → visit p s = .ok s' → P s') (root : Path) {s s' : σ} (hs : P s)
    (hrun : w.run view visit root s = .ok s') : P s' := by
  have hkeeps (p : Path) : Simulates (fun _ => True) (fun s t => s = t ∧ P s) (visit p) (visit p) :=
    ⟨fun _ _ _ _ => trivial, fun s s' t ⟨hst, hP⟩ hv _ => ⟨s', hst ▸ hv, rfl, hvisit p s s' hP hv⟩⟩
  have hsimulates := simulates_run hkeeps view view (fun s t hst => by rw [hst.1]) w root
  obtain ⟨t', -, -, hP⟩ := hsimulates.forth s s' s ⟨rfl, hs⟩ hrun trivial
  exact hP

end Walk
end SourceTidy
