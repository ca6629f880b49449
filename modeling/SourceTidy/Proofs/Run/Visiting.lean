import SourceTidy.Run.Plan
import SourceTidy.Proofs.Attempt
import SourceTidy.Proofs.Tree.Listing

/-!
# One turn after the other

What a turn does to a state, whatever the way to process files is; and runs as lists of turns. When turns leave the outline
of the tree as it is, the walk comes to the files that a scan finds before the run (`KeepsOutline.run_eq_follow`), so the run
ends as they do one after the other (`foldlM_eq_ok_iff`).
-/

namespace SourceTidy

/-- The end of something that is done at every file found: as the list of files ends. -/
def Walk.Found.ending {σ ε : Type} (found : Walk.Found) (s : σ) : Except (WalkError σ ε) σ :=
  match found.failure with
  | none => .ok s
  | some failure => .error (.refused s failure)

namespace Run

/-! ## Hooks -/

/-- Hooks that leave the tree as it is and go on. What is left of them are the events. -/
structure Hooks.KeepTree (h : Hooks) : Prop where
  before : ∀ r t, h.before r t = .ok t
  after : ∀ r ok t, h.after r ok t = .ok t

theorem Hooks.keepTree_default : ({} : Hooks).KeepTree := ⟨fun _ _ => rfl, fun _ _ _ => rfl⟩

/-- Hooks that leave the tree as it is are as good as none. -/
theorem Hooks.KeepTree.eq_default {h : Hooks} (hh : h.KeepTree) : h = {} := by
  obtain ⟨before, after⟩ := h
  have hbefore : before = fun _ t => .ok t := by
    funext r t
    exact hh.before r t
  have hafter : after = fun _ _ t => .ok t := by
    funext r ok t
    exact hh.after r ok t
  rw [hbefore, hafter]

/-! ## One turn -/

namespace Plan

variable (p : Plan) (process : Record → World → Except Halt (World × Result)) (root : Path)

/-- A file that comes up is announced in the world as it is, and then the hook makes something of the tree. -/
theorem announce_eq_ok_iff {r : Record} {s s' : State} :
    p.announce r s = .ok s' ↔
      ∃ tree, p.hooks.before r s.world.tree = .ok tree ∧
        s' = ⟨{ s.world with tree }, s.verdict, s.events ++ [.before r.relative s.world]⟩ := by
  simp only [announce]
  cases p.hooks.before r s.world.tree <;> simp [eq_comm]

/-- A file that has been processed is counted and announced, and then the hook makes something of the tree. -/
theorem finish_eq_ok_iff {r : Record} {result : Result} {w : World} {s s' : State} :
    p.finish r result w s = .ok s' ↔
      ∃ tree, p.hooks.after r result.ok w.tree = .ok tree ∧
        s' = ⟨{ w with tree }, s.verdict.add r result, s.events ++ [.after r.relative result.ok w]⟩ := by
  simp only [finish]
  cases p.hooks.after r result.ok w.tree <;> simp [eq_comm]

/-- A turn ends when the hooks and the processing between them do. The first hook is given the tree as it is, the file is
processed in the tree that this hook leaves, and the second hook is given the tree that processing leaves. -/
theorem visitBy_eq_ok_iff {path : Path} {s s' : State} :
    p.visitBy process root path s = .ok s' ↔
      ∃ tree w result tree', p.hooks.before (.ofPath root path) s.world.tree = .ok tree ∧
        process (.ofPath root path) { s.world with tree } = .ok (w, result) ∧
        p.hooks.after (.ofPath root path) result.ok w.tree = .ok tree' ∧
        s' = ⟨{ w with tree := tree' }, s.verdict.add (.ofPath root path) result,
          s.events ++ [.before (path.relativeTo root) s.world, .process (path.relativeTo root) { s.world with tree },
            .after (path.relativeTo root) result.ok w]⟩ := by
  simp only [visitBy, Except.bind_eq_ok_iff, announce_eq_ok_iff]
  constructor
  · rintro ⟨s₁, ⟨tree, hbefore, rfl⟩, h⟩
    cases hprocess : process (.ofPath root path) { s.world with tree } with
    | error halt =>
      simp only [hprocess] at h
      cases h
    | ok ended =>
      simp only [hprocess, finish_eq_ok_iff] at h
      obtain ⟨tree', hafter, rfl⟩ := h
      exact ⟨tree, ended.1, ended.2, tree', hbefore, hprocess, hafter, by simp [Record.ofPath]⟩
  · rintro ⟨tree, w, result, tree', hbefore, hprocess, hafter, rfl⟩
    refine ⟨_, ⟨tree, hbefore, rfl⟩, ?_⟩
    simp only [hprocess]
    exact (p.finish_eq_ok_iff).2 ⟨tree', hafter, by simp [Record.ofPath]⟩

theorem visit_eq_ok_iff {path : Path} {s s' : State} :
    p.visit root path s = .ok s' ↔
      ∃ tree w result tree', p.hooks.before (.ofPath root path) s.world.tree = .ok tree ∧
        p.job.process (.ofPath root path) { s.world with tree } = .ok (w, result) ∧
        p.hooks.after (.ofPath root path) result.ok w.tree = .ok tree' ∧
        s' = ⟨{ w with tree := tree' }, s.verdict.add (.ofPath root path) result,
          s.events ++ [.before (path.relativeTo root) s.world, .process (path.relativeTo root) { s.world with tree },
            .after (path.relativeTo root) result.ok w]⟩ := by
  simp only [visit, visitBy_eq_ok_iff, Except.mapError_eq_ok_iff]

section Unhooked

variable {p} (hhooks : p.hooks = {}) {path : Path} {s : State}
include hhooks

/-- The turn of a file that is processed to its end: it is announced and processed in the world as it is, and announced as
processed in the world that this leaves. -/
theorem visitBy_of_ok {w : World} {result : Result} (h : process (.ofPath root path) s.world = .ok (w, result)) :
    p.visitBy process root path s =
      .ok ⟨w, s.verdict.add (.ofPath root path) result,
        s.events ++ [.before (path.relativeTo root) s.world, .process (path.relativeTo root) s.world,
          .after (path.relativeTo root) result.ok w]⟩ := by
  refine (p.visitBy_eq_ok_iff process root).2 ⟨s.world.tree, w, result, w.tree, ?_, h, ?_, rfl⟩ <;> rw [hhooks]

/-- The turn of a file whose processing stops the run. -/
theorem visitBy_of_error {e : Halt} (h : process (.ofPath root path) s.world = .error e) :
    p.visitBy process root path s =
      .error ⟨⟨e.world, s.verdict, s.events ++ [.before (path.relativeTo root) s.world,
        .process (path.relativeTo root) s.world]⟩, e.reason⟩ := by
  simp only [visitBy, announce, hhooks, bind, Except.bind, h]
  simp [Record.ofPath]

end Unhooked
end Plan

/-! ## All turns -/

section Turns

variable (visit : Path → State → Except Stopped State)

/-- The state after a turn, also when the run stops there. -/
def settledBy (path : Path) (s : State) : State :=
  match visit path s with
  | .ok s' => s'
  | .error stop => stop.state

/-- Files with the states in which their turns come. -/
def turnsBy : List Path → State → List (Path × State)
  | [], _ => []
  | path :: rest, s => (path, s) :: turnsBy rest (settledBy visit path s)

theorem settledBy_of_ok {visit : Path → State → Except Stopped State} {path : Path} {s s' : State}
    (h : visit path s = .ok s') : settledBy visit path s = s' := by
  rw [settledBy, h]

theorem map_fst_turnsBy (files : List Path) (s : State) : (turnsBy visit files s).map Prod.fst = files := by
  induction files generalizing s with
  | nil => rfl
  | cons path rest ih => rw [turnsBy, List.map_cons, ih]

/-- Turns come one after the other and all of them end, or one of them does not. -/
theorem foldlM_eq_ok_iff (files : List Path) (s s' : State) :
    files.foldlM (fun s f => Walk.handle visit f s) s = .ok s' ↔
      (∀ x ∈ turnsBy visit files s, ∃ s₁, visit x.1 x.2 = .ok s₁) ∧
        files.foldl (fun s f => settledBy visit f s) s = s' := by
  induction files generalizing s with
  | nil =>
    have hok : ([] : List Path).foldlM (fun s f => Walk.handle visit f s) s = .ok s := rfl
    simp [hok, turnsBy]
  | cons path rest ih =>
    rw [List.foldlM_cons, turnsBy, List.forall_mem_cons, List.foldl_cons]
    cases hvisit : visit path s with
    | error stop => simp [Walk.handle_of_error hvisit, bind, Except.bind]
    | ok s₁ =>
      rw [Walk.handle_of_ok hvisit, settledBy_of_ok hvisit]
      simpa [bind, Except.bind] using ih s₁

/-- Turns leave the outline of a well-formed tree as it was, also where they stop. -/
def KeepsOutline : Prop :=
  ∀ path s, path.IsPlain → s.world.tree.WellFormed →
    (settledBy visit path s).world.tree.outline = s.world.tree.outline

variable {visit}

/-- The tree stays well-formed from turn to turn. -/
theorem KeepsOutline.wellFormed (h : KeepsOutline visit) {path : Path} (hpath : path.IsPlain) {s : State}
    (ht : s.world.tree.WellFormed) : (settledBy visit path s).world.tree.WellFormed :=
  (Tree.wellFormed_outline _).1 (h path s hpath ht ▸ (Tree.wellFormed_outline _).2 ht)

theorem KeepsOutline.of_mem_turnsBy (h : KeepsOutline visit) {files : List Path} (hfiles : ∀ f ∈ files, f.IsPlain)
    {s : State} (ht : s.world.tree.WellFormed) : ∀ x ∈ turnsBy visit files s, x.1.IsPlain ∧ x.2.world.tree.WellFormed := by
  induction files generalizing s with
  | nil => exact fun x hx => absurd hx List.not_mem_nil
  | cons path rest ih =>
    obtain ⟨hpath, hrest⟩ := List.forall_mem_cons.1 hfiles
    rw [turnsBy, List.forall_mem_cons]
    exact ⟨⟨hpath, ht⟩, ih hrest (h.wellFormed hpath ht)⟩

/-- A run over a walk is the turns of the files that a scan finds before it. -/
theorem KeepsOutline.run_eq_follow (h : KeepsOutline visit) (walk : Walk) {root : Path} (hroot : root.IsPlain) {w : World}
    (ht : w.tree.WellFormed)
    (hexists : w.tree.isFile walk.work root = .ok true ∨ w.tree.isDirectory walk.work root = true) :
    ∃ found, walk.scan w.tree root = some found ∧ (∀ f ∈ found.files, f.IsPlain) ∧
      walk.run (·.world.tree) visit root { world := w } = found.follow visit { world := w } := by
  have hkeeps : Walk.Keeps (·.world.tree) visit (fun s => s.world.tree.outline = w.tree.outline) w.tree := by
    refine ⟨fun s hs => hs, fun path s s' hpath hs hvisit => ?_⟩
    have hwf : s.world.tree.WellFormed := (Tree.wellFormed_outline _).1 (hs ▸ (Tree.wellFormed_outline _).2 ht)
    exact (settledBy_of_ok hvisit ▸ h path s hpath hwf).trans hs
  have hlist : ∃ found, walk.list? w.tree root = some found := by
    unfold Walk.list?
    rcases hexists with hfile | hdirectory
    · rw [hfile]
      exact ⟨_, rfl⟩
    · split
      · exact ⟨_, rfl⟩
      · exact ⟨_, rfl⟩
      · rw [if_pos hdirectory]
        exact ⟨_, rfl⟩
  obtain ⟨found, hfound⟩ := hlist
  refine ⟨found, (walk.scan_eq_list? ht hroot).trans hfound, fun f => walk.isPlain_of_mem_list? ht hroot hfound, ?_⟩
  rw [walk.run_eq_follow ht hkeeps hroot rfl, hfound]

/-- Turns that all end leave what the last of them leaves. -/
theorem follow_eq_ending {found : Walk.Found} {s : State}
    (hends : ∀ x ∈ turnsBy visit found.files s, ∃ s₁, visit x.1 x.2 = .ok s₁) :
    found.follow visit s = found.ending (found.files.foldl (fun s f => settledBy visit f s) s) := by
  rw [Walk.Found.follow, (foldlM_eq_ok_iff visit found.files s _).2 ⟨hends, rfl⟩]
  rfl

/-- Something is done at every file found, and ends, if each turn ends and the list of files has no failure. -/
theorem follow_eq_ok_iff {found : Walk.Found} {s s' : State} :
    found.follow visit s = .ok s' ↔
      found.failure = none ∧ (∀ x ∈ turnsBy visit found.files s, ∃ s₁, visit x.1 x.2 = .ok s₁) ∧
        found.files.foldl (fun s f => settledBy visit f s) s = s' := by
  rw [← foldlM_eq_ok_iff, Walk.Found.follow]
  cases found.files.foldlM (fun s f => Walk.handle visit f s) s with
  | error e => simp [bind, Except.bind]
  | ok s₁ => cases found.failure <;> simp [bind, Except.bind]

end Turns

/-! ## The turns of a plan -/

namespace Plan

variable (p : Plan) (root : Path)

/-- The state after the turn of a file, also when the run stops there. -/
def settled : Path → State → State := settledBy (p.visit root)

/-- Files with the states in which their turns come. -/
def turns : List Path → State → List (Path × State) := turnsBy (p.visit root)

theorem turns_cons (path : Path) (rest : List Path) (s : State) :
    p.turns root (path :: rest) s = (path, s) :: p.turns root rest (p.settled root path s) := rfl

theorem map_fst_turns (files : List Path) (s : State) : (p.turns root files s).map Prod.fst = files :=
  map_fst_turnsBy _ files s

section Unhooked

variable {p} (hhooks : p.hooks = {}) {path : Path} {s : State}
include hhooks

/-- The turn of a file that is processed to its end. -/
theorem visit_of_process {w' : World} {result : Result}
    (h : p.job.process (.ofPath root path) s.world = .ok (w', result)) :
    p.visit root path s =
      .ok ⟨w', s.verdict.add (.ofPath root path) result,
        s.events ++ [.before (path.relativeTo root) s.world, .process (path.relativeTo root) s.world,
          .after (path.relativeTo root) result.ok w']⟩ :=
  visitBy_of_ok _ root hhooks (by rw [h]; rfl)

theorem settled_of_process {w' : World} {result : Result}
    (h : p.job.process (.ofPath root path) s.world = .ok (w', result)) :
    p.settled root path s =
      ⟨w', s.verdict.add (.ofPath root path) result,
        s.events ++ [.before (path.relativeTo root) s.world, .process (path.relativeTo root) s.world,
          .after (path.relativeTo root) result.ok w']⟩ :=
  settledBy_of_ok (visit_of_process root hhooks h)

/-- The turn of a file whose text has no bytes stops the run. -/
theorem visit_of_unwritable {e : Unwritable} (h : p.job.process (.ofPath root path) s.world = .error e) :
    p.visit root path s =
      .error ⟨⟨e.world, s.verdict, s.events ++ [.before (path.relativeTo root) s.world,
        .process (path.relativeTo root) s.world]⟩, .unwritable e.reason⟩ :=
  visitBy_of_error (fun r w => (p.job.process r w).mapError Unwritable.halt) root hhooks (e := e.halt) (by rw [h]; rfl)

end Unhooked
end Plan
end Run
end SourceTidy
