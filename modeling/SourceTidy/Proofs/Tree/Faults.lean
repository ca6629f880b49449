import Mathlib
import SourceTidy.Proofs.Tree.Room
import SourceTidy.Tree.Faults

/-!
# Replacements of which any step may fail

Whatever steps the system refuses for reasons that no tree shows, a replacement is all or nothing
(`write_is_all_or_nothing`): the steps before the renaming touch the temporary file alone (`Drafts`), removing that file
undoes them, and the renaming changes the file at once.
-/

namespace SourceTidy.Tree

theorem attemptAll_noFaults (t : Tree) (steps : List ReplaceStep) : t.attemptAll noFaults steps = t.performAll steps := by
  induction steps generalizing t with
  | nil => rfl
  | cons s rest ih =>
    rw [attemptAll, performAll, attempt, noFaults]
    cases t.perform s with
    | ok t' => exact ih t'
    | error e => rfl

/-- Writing is writing without faults. -/
theorem writeUnder_noFaults (t : Tree) (work : Location) (p : Path) (content : Text) :
    t.writeUnder noFaults work p content = t.write work p content := by
  have hreplace : t.replaceUnder noFaults = t.replace := by
    funext target bytes
    rw [replaceUnder, attemptAll_noFaults]
    rfl
  rw [writeUnder, hreplace]
  rfl

/-! ## Steps that touch the temporary file alone -/

/-- A tree is another one but for a temporary file, which may be there. -/
inductive Drafts (t : Tree) (temporary : Location) : Tree → Prop where
  | clean : Drafts t temporary t
  | draft (mode : Nat) (content : Bytes) : Drafts t temporary (t.put temporary (.file mode content))

/-- A step touches the temporary file alone. -/
def Prepares (temporary : Location) : ReplaceStep → Prop
  | .create l => l = temporary
  | .fill l _ => l = temporary
  | .copyMode _ l => l = temporary
  | .rename _ _ => False

theorem prepares_create (temporary : Location) : Prepares temporary (.create temporary) := rfl

theorem prepares_fill (temporary : Location) (content : Bytes) : Prepares temporary (.fill temporary content) := rfl

theorem prepares_copyMode (source temporary : Location) : Prepares temporary (.copyMode source temporary) := rfl

variable {t u v : Tree} {temporary target : Location} {faults : Faults} {s : ReplaceStep} {steps : List ReplaceStep}
  {content : Bytes}

theorem Drafts.put (h : Drafts t temporary u) (mode : Nat) (content : Bytes) :
    Drafts t temporary (u.put temporary (.file mode content)) := by
  cases h with
  | clean => exact .draft mode content
  | draft mode' content' =>
    rw [put_put]
    exact .draft mode content

theorem Drafts.interrupt (h : Drafts t temporary u) (hs : Prepares temporary s) (written : Nat) :
    Drafts t temporary (u.interrupt written s) := by
  unfold Tree.interrupt
  split
  · obtain rfl := hs
    split
    · exact h.put _ _
    · exact h
  · exact h

theorem Drafts.perform (h : Drafts t temporary u) (hs : Prepares temporary s) (hv : u.perform s = .ok v) :
    Drafts t temporary v := by
  cases s with
  | create l =>
    obtain rfl := hs
    rw [eq_put_of_perform_create hv]
    exact h.put _ _
  | fill l content =>
    obtain rfl := hs
    simp only [Tree.perform] at hv
    split at hv
    · cases hv
      exact h.put _ _
    · cases hv
    · cases hv
  | copyMode source l =>
    obtain rfl := hs
    simp only [Tree.perform] at hv
    split at hv
    · cases hv
      exact h.put _ _
    · cases hv
    · cases hv
    · cases hv
      exact h
  | rename source l => cases hs

theorem Drafts.attempt (h : Drafts t temporary u) (hs : Prepares temporary s) :
    Drafts t temporary (u.attempt faults s).1 := by
  unfold Tree.attempt
  split
  · exact h.interrupt hs _
  · split
    · rename_i t' hperform
      exact h.perform hs hperform
    · exact h

/-- Steps that touch the temporary file alone leave the rest as it was, wherever they stop. -/
theorem Drafts.attemptAll (h : Drafts t temporary u) (hsteps : ∀ s ∈ steps, Prepares temporary s) :
    Drafts t temporary (u.attemptAll faults steps).1 := by
  induction steps generalizing u with
  | nil => exact h
  | cons s rest ih =>
    obtain ⟨hs, hrest⟩ := List.forall_mem_cons.1 hsteps
    have hdrafts : Drafts t temporary (u.attempt faults s).1 := h.attempt hs
    rw [Tree.attemptAll]
    split
    · rename_i t' hattempt
      rw [hattempt] at hdrafts
      exact ih hdrafts hrest
    · rename_i t' e hattempt
      rwa [hattempt] at hdrafts

/-- The steps of a replacement before the renaming. -/
def preparation (temporary target : Location) (content : Bytes) : List ReplaceStep :=
  [.create temporary, .fill temporary content, .copyMode target temporary]

theorem replaceSteps_eq (temporary target : Location) (content : Bytes) :
    replaceSteps temporary target content = preparation temporary target content ++ [.rename temporary target] := rfl

theorem prepares_of_mem_preparation (hs : s ∈ preparation temporary target content) : Prepares temporary s := by
  simp only [preparation, List.mem_cons, List.not_mem_nil, or_false] at hs
  rcases hs with rfl | rfl | rfl
  · exact prepares_create temporary
  · exact prepares_fill temporary content
  · exact prepares_copyMode target temporary

/-! ## Where the steps stop -/

theorem attemptAll_append (faults : Faults) (t : Tree) (xs ys : List ReplaceStep) :
    t.attemptAll faults (xs ++ ys) =
      match t.attemptAll faults xs with
      | (t', none) => t'.attemptAll faults ys
      | (t', some e) => (t', some e) := by
  induction xs generalizing t with
  | nil => rfl
  | cons s rest ih =>
    rw [List.cons_append, attemptAll, attemptAll]
    split
    · exact ih _
    · rfl

/-- Steps succeed when none is refused from outside of the tree and the tree lets all of them happen. -/
theorem attemptAll_eq_none_iff :
    t.attemptAll faults steps = (u, none) ↔ (∀ s ∈ steps, faults s = none) ∧ t.performAll steps = (u, none) := by
  induction steps generalizing t with
  | nil => simp [attemptAll, performAll]
  | cons s rest ih =>
    rw [attemptAll, performAll, attempt, List.forall_mem_cons]
    cases hs : faults s with
    | some f => simp
    | none =>
      cases t.perform s with
      | error e => simp
      | ok t' => simp [ih]

/-- A renaming that fails changes nothing. -/
theorem attempt_rename_of_error {source : Location} {e : SystemError}
    (h : t.attempt faults (.rename source target) = (u, some e)) : u = t := by
  unfold attempt at h
  split at h
  · cases h
    rfl
  · split at h
    · cases h
    · cases h
      rfl

/-- A replacement that fails has changed the temporary file alone. -/
theorem drafts_of_error {e : SystemError} (h : t.attemptAll faults (replaceSteps temporary target content) = (u, some e)) :
    Drafts t temporary u := by
  have hprepared : Drafts t temporary (t.attemptAll faults (preparation temporary target content)).1 :=
    Drafts.clean.attemptAll fun s hs => prepares_of_mem_preparation hs
  rw [replaceSteps_eq, attemptAll_append] at h
  split at h
  · rename_i t' hsteps
    rw [hsteps] at hprepared
    rw [attemptAll] at h
    split at h
    · cases h
    · rename_i t'' e' hrename
      cases h
      rwa [attempt_rename_of_error hrename]
  · rename_i t' e' hsteps
    cases h
    rwa [hsteps] at hprepared

/-- After some of the steps, not all of them, the temporary file alone has changed. -/
theorem drafts_of_take {k : Nat} (hk : k < 4) :
    Drafts t temporary (t.attemptAll faults ((replaceSteps temporary target content).take k)).1 := by
  rw [replaceSteps_eq, List.take_append_of_le_length (Nat.le_of_lt_succ hk)]
  exact Drafts.clean.attemptAll fun s hs => prepares_of_mem_preparation (List.mem_of_mem_take hs)

/-! ## The temporary file beside a file -/

/-- The temporary file of a location is elsewhere, since its name is longer. -/
theorem temporaryNumber_ne (l : Location) (n : Nat) : temporaryNumber l n ≠ l := by
  intro h
  have hlast := congrArg (fun l => (l.getLast?.getD []).length) h
  simp only [temporaryNumber, List.getLast?_append, List.getLast?_singleton, Option.some_or, Option.getD_some,
    List.length_append] at hlast
  have hdot : (("." : Text).length) = 1 := by decide
  omega

theorem ne_temporaryBeside (t : Tree) (target : Location) : target ≠ t.temporaryBeside target := by
  obtain ⟨n, hn⟩ := t.temporaryBeside_eq_temporaryNumber target
  rw [hn]
  exact (temporaryNumber_ne target n).symm

theorem ne_nil_of_get?_eq_none {l : Location} (h : t.get? l = none) : l ≠ [] := by
  rintro rfl
  cases h

/-- An entry that is put where there was nothing leaves no trace when it is erased. -/
theorem WellFormed.erase_put (ht : t.WellFormed) {l : Location} (hl : t.get? l = none) (e : Entry) :
    (t.put l e).erase l = t := by
  have hnew : l ∉ t.locations := by
    rw [← isSome_get?_iff t (ne_nil_of_get?_eq_none hl), hl]
    exact Bool.false_ne_true
  have hself : l.isPrefixOf l = true := List.isPrefixOf_iff_prefix.2 List.prefix_rfl
  calc (t.put l e).erase l = t.erase l := by
        rw [erase, put, putEntry_of_notMem e hnew, List.filter_append, List.filter_cons_of_neg (by simp [hself]),
          List.filter_nil, List.append_nil, erase]
    _ = t := erase_of_not_isPrefix fun m hm => ht.not_isPrefix_of_get?_eq_none hl hm

/-- Without its temporary file, a tree is as it was. -/
theorem Drafts.erase_eq (h : Drafts t temporary u) (ht : t.WellFormed) (hfree : t.get? temporary = none) :
    u.erase temporary = t := by
  cases h with
  | clean => exact erase_of_not_isPrefix fun m hm => ht.not_isPrefix_of_get?_eq_none hfree hm
  | draft mode content => exact ht.erase_put hfree _

/-- What is not at the location of the temporary file is as it was. -/
theorem Drafts.get?_eq (h : Drafts t temporary u) (hfree : t.get? temporary = none) {l : Location} (hl : l ≠ temporary) :
    u.get? l = t.get? l := by
  cases h with
  | clean => rfl
  | draft mode content => rw [get?_put t (ne_nil_of_get?_eq_none hfree), if_neg hl]

/-! ## All or nothing -/

/-- A tree is another one with a new content in one file. -/
structure Replaced (t u : Tree) (target : Location) (content : Bytes) : Prop where
  file : ∃ mode old, t.get? target = some (.file mode old) ∧ u.get? target = some (.file mode content)
  others : ∀ l ≠ target, u.get? l = t.get? l
  locations : u.locations = t.locations

theorem replaced_put {mode : Nat} {old : Bytes} (h : t.get? target = some (.file mode old)) (content : Bytes) :
    Replaced t (t.put target (.file mode content)) target content := by
  have htarget : target ≠ [] := by
    rintro rfl
    cases h
  refine ⟨⟨mode, old, h, ?_⟩, fun l hl => ?_, ?_⟩
  · rw [get?_put t htarget, if_pos rfl]
  · rw [get?_put t htarget, if_neg hl]
  · exact map_fst_putEntry _ (mem_locations_of_get? h (by simp))

theorem performAll_cons_eq_none_iff :
    t.performAll (s :: steps) = (u, none) ↔ ∃ t', t.perform s = .ok t' ∧ t'.performAll steps = (u, none) := by
  rw [performAll]
  cases t.perform s <;> simp

/-- What is replaced is a file, if it is no link: a mode is taken over from it, and a file is not renamed over a directory. -/
theorem isFile_of_performAll (hlink : ∀ text, t.get? target ≠ some (.link text)) (hne : target ≠ temporary)
    (hfree : t.get? temporary = none) (h : t.performAll (replaceSteps temporary target content) = (u, none)) :
    ∃ mode old, t.get? target = some (.file mode old) := by
  rw [replaceSteps_eq, preparation] at h
  simp only [List.cons_append, List.nil_append] at h
  obtain ⟨t₁, hcreate, h⟩ := performAll_cons_eq_none_iff.1 h
  obtain ⟨t₂, hfill, h⟩ := performAll_cons_eq_none_iff.1 h
  obtain ⟨t₃, hcopy, h⟩ := performAll_cons_eq_none_iff.1 h
  obtain ⟨t₄, hrename, -⟩ := performAll_cons_eq_none_iff.1 h
  have hdrafts₁ : Drafts t temporary t₁ := Drafts.clean.perform (prepares_create temporary) hcreate
  have hdrafts₂ : Drafts t temporary t₂ := hdrafts₁.perform (prepares_fill temporary content) hfill
  have hdrafts₃ : Drafts t temporary t₃ := hdrafts₂.perform (prepares_copyMode target temporary) hcopy
  cases htarget : t.get? target with
  | none => simp [perform, hdrafts₂.get?_eq hfree hne, htarget] at hcopy
  | some e =>
    cases e with
    | file mode old => exact ⟨mode, old, rfl⟩
    | link text => exact absurd htarget (hlink text)
    | directory =>
      have hdirectory : t₃.get? target = some .directory := (hdrafts₃.get?_eq hfree hne).trans htarget
      cases hdrafts₃ with
      | clean => simp [perform, hfree] at hrename
      | draft mode draft => simp [perform, hdirectory, get?_put t (ne_nil_of_get?_eq_none hfree)] at hrename

/-- A replacement of what is no link succeeds for a file with room for a temporary file beside it, when no step is refused
from outside of the tree. -/
theorem WellFormed.attemptAll_replaceSteps_iff (ht : t.WellFormed) (hlink : ∀ text, t.get? target ≠ some (.link text)) :
    t.attemptAll faults (replaceSteps (t.temporaryBeside target) target content) = (u, none) ↔
      (∀ s ∈ replaceSteps (t.temporaryBeside target) target content, faults s = none) ∧ t.hasRoomBeside target = true ∧
        ∃ mode old, t.get? target = some (.file mode old) ∧ u = t.put target (.file mode content) := by
  rw [attemptAll_eq_none_iff]
  refine and_congr_right fun _ => ?_
  constructor
  · intro h
    obtain ⟨mode, old, htarget⟩ :=
      isFile_of_performAll hlink (t.ne_temporaryBeside target) (t.get?_temporaryBeside target) h
    have hreplace : t.replace target content = (u, none) := by
      rw [replace, h]
    rw [ht.replace_eq htarget] at hreplace
    split at hreplace
    · cases hreplace
      exact ⟨‹_›, mode, old, htarget, rfl⟩
    · cases hreplace
  · rintro ⟨hroom, mode, old, htarget, rfl⟩
    have hreplace := ht.replace_eq htarget content
    rw [if_pos hroom] at hreplace
    simp only [replace] at hreplace
    split at hreplace
    · rename_i t' hsteps
      exact hsteps.trans hreplace
    · simp at hreplace

theorem WellFormed.replaceUnder_eq_none_iff (ht : t.WellFormed) (hlink : ∀ text, t.get? target ≠ some (.link text)) :
    t.replaceUnder faults target content = (u, none) ↔
      (∀ s ∈ replaceSteps (t.temporaryBeside target) target content, faults s = none) ∧ t.hasRoomBeside target = true ∧
        ∃ mode old, t.get? target = some (.file mode old) ∧ u = t.put target (.file mode content) := by
  rw [← ht.attemptAll_replaceSteps_iff hlink]
  simp only [replaceUnder]
  split
  · rename_i t' hsteps
    rw [hsteps]
  · rename_i t' e hsteps
    rw [hsteps]
    simp

/-- A replacement that fails leaves the tree as it was, since removing the temporary file undoes what has happened. -/
theorem WellFormed.replaceUnder_eq_some (ht : t.WellFormed) {e : SystemError}
    (h : t.replaceUnder faults target content = (u, some e)) : u = t := by
  simp only [replaceUnder] at h
  split at h
  · cases h
  · rename_i t' e' hsteps
    cases h
    exact (drafts_of_error hsteps).erase_eq ht (t.get?_temporaryBeside target)

/-- After any number of the steps of a replacement, the file has its old content or all of the new one. -/
theorem WellFormed.attemptAll_take (ht : t.WellFormed) (hlink : ∀ text, t.get? target ≠ some (.link text))
    (faults : Faults) (content : Bytes) (k : Nat) :
    let u := (t.attemptAll faults ((replaceSteps (t.temporaryBeside target) target content).take k)).1
    u.get? target = t.get? target ∨ Replaced t u target content := by
  have hfree := t.get?_temporaryBeside target
  have hne := t.ne_temporaryBeside target
  by_cases hk : k < 4
  · exact .inl ((drafts_of_take hk).get?_eq hfree hne)
  · rw [List.take_of_length_le (Nat.not_lt.1 hk)]
    generalize hsteps : t.attemptAll faults (replaceSteps (t.temporaryBeside target) target content) = result
    obtain ⟨u, _ | e⟩ := result
    · obtain ⟨-, -, mode, old, htarget, rfl⟩ := (ht.attemptAll_replaceSteps_iff hlink).1 hsteps
      exact .inr (replaced_put htarget content)
    · exact .inl ((drafts_of_error hsteps).get?_eq hfree hne)

/-- What it takes for a write to succeed, and what it does then. -/
theorem WellFormed.writeUnder_eq_none_iff (ht : t.WellFormed) {work : Location} {p : Path}
    (hlink : ∀ text, t.get? (t.real work p) ≠ some (.link text)) {text : Text} :
    t.writeUnder faults work p text = (u, none) ↔
      ∃ bytes mode old, Utf8.encode text = .ok bytes ∧ t.get? (t.real work p) = some (.file mode old) ∧
        t.hasRoomBeside (t.real work p) = true ∧
        (∀ s ∈ replaceSteps (t.temporaryBeside (t.real work p)) (t.real work p) bytes, faults s = none) ∧
        u = t.put (t.real work p) (.file mode bytes) := by
  unfold writeUnder
  generalize t.real work p = target at hlink ⊢
  cases Utf8.encode text with
  | error e => simp
  | ok bytes =>
    have hreplace : (match t.replaceUnder faults target bytes with
        | (t', none) => (t', none)
        | (t', some e) => (t', some (WriteError.system e))) = (u, none) ↔
          t.replaceUnder faults target bytes = (u, none) := by
      split <;> simp_all
    constructor
    · intro h
      obtain ⟨hnone, hroom, mode, old, htarget, hu⟩ := (ht.replaceUnder_eq_none_iff hlink).1 (hreplace.1 h)
      exact ⟨bytes, mode, old, rfl, htarget, hroom, hnone, hu⟩
    · rintro ⟨bytes', mode, old, hbytes, htarget, hroom, hnone, hu⟩
      obtain rfl := Except.ok.inj hbytes
      exact hreplace.2 ((ht.replaceUnder_eq_none_iff hlink).2 ⟨hnone, hroom, mode, old, htarget, hu⟩)

theorem WellFormed.writeUnder_eq_some (ht : t.WellFormed) {work : Location} {p : Path} {text : Text} {e : WriteError}
    (h : t.writeUnder faults work p text = (u, some e)) : u = t := by
  unfold writeUnder at h
  split at h
  · cases h
    rfl
  · split at h
    · cases h
    · rename_i hreplace
      cases h
      exact ht.replaceUnder_eq_some hreplace

/-- Writing a text to the file that a path leads to is all or nothing, whichever steps are refused and whatever had been
written by then. It succeeds exactly when the text has bytes, the path leads to a file, there is room for the temporary file
and no step is refused; then the file has those bytes and its former mode, and the rest of the tree is as it was. When it
fails, the whole tree is as it was. After any number of the steps the file has its old content or all of the new one. What the
path leads to may be missing; it is a link only when links go round in circles. -/
theorem write_is_all_or_nothing {t : Tree} (ht : t.WellFormed) {work : Location} {p : Path}
    (hlink : ∀ text, t.get? (t.real work p) ≠ some (.link text)) (content : Text) (faults : Faults) :
    t.writeUnder noFaults work p content = t.write work p content ∧
    ((t.writeUnder faults work p content).2 = none ↔
      ∃ bytes mode old, Utf8.encode content = .ok bytes ∧ t.get? (t.real work p) = some (.file mode old) ∧
        t.hasRoomBeside (t.real work p) = true ∧
        ∀ s ∈ replaceSteps (t.temporaryBeside (t.real work p)) (t.real work p) bytes, faults s = none) ∧
    (∀ u, t.writeUnder faults work p content = (u, none) →
      ∃ bytes, Utf8.encode content = .ok bytes ∧ Replaced t u (t.real work p) bytes) ∧
    (∀ u e, t.writeUnder faults work p content = (u, some e) → u = t) ∧
    ∀ bytes, Utf8.encode content = .ok bytes → ∀ k,
      let u := (t.attemptAll faults ((replaceSteps (t.temporaryBeside (t.real work p)) (t.real work p) bytes).take k)).1
      u.get? (t.real work p) = t.get? (t.real work p) ∨ Replaced t u (t.real work p) bytes := by
  refine ⟨t.writeUnder_noFaults work p content, ?_, fun u h => ?_, fun u e h => ht.writeUnder_eq_some h,
    fun bytes _ k => ht.attemptAll_take hlink faults bytes k⟩
  · constructor
    · intro h
      obtain ⟨bytes, mode, old, hbytes, htarget, hroom, hnone, -⟩ := (ht.writeUnder_eq_none_iff hlink).1 (Prod.ext rfl h)
      exact ⟨bytes, mode, old, hbytes, htarget, hroom, hnone⟩
    · rintro ⟨bytes, mode, old, hbytes, htarget, hroom, hnone⟩
      rw [(ht.writeUnder_eq_none_iff hlink).2 ⟨bytes, mode, old, hbytes, htarget, hroom, hnone, rfl⟩]
  · obtain ⟨bytes, mode, old, hbytes, htarget, -, -, rfl⟩ := (ht.writeUnder_eq_none_iff hlink).1 h
    exact ⟨bytes, hbytes, replaced_put htarget bytes⟩

/-- A file that two links lead to, one after the other. -/
def linkedTree : Tree :=
  ⟨[(["a"], .directory), (["a", "x"], .link "../b/y"), (["b"], .directory), (["b", "y"], .link "f"),
    (["b", "f"], .file 0o644 [1, 2])]⟩

/-- The content cannot be written beyond its first byte. -/
def halfWritten : Faults
  | .fill _ _ => some ⟨.notFound, 1⟩
  | _ => none

/-- A write through two links that stops in the middle of the content leaves nothing behind. -/
theorem write_through_links_stops_in_content :
    linkedTree.WellFormed ∧ linkedTree.real [] (Path.ofText "/a/x") = [Text.ofString "b", Text.ofString "f"] ∧
      linkedTree.writeUnder halfWritten [] (Path.ofText "/a/x") "new" = (linkedTree, some (.system .notFound)) := by
  have ht : linkedTree.WellFormed := by decide
  have hreal : linkedTree.real [] (Path.ofText "/a/x") = [Text.ofString "b", Text.ofString "f"] := by cbv
  have htarget : linkedTree.get? [Text.ofString "b", Text.ofString "f"] = some (.file 0o644 [1, 2]) := by decide
  have hlink : ∀ text, linkedTree.get? (linkedTree.real [] (Path.ofText "/a/x")) ≠ some (.link text) := by
    simp [hreal, htarget]
  have hfails : (linkedTree.writeUnder halfWritten [] (Path.ofText "/a/x") "new").2 = some (.system .notFound) := by cbv
  have h := (write_is_all_or_nothing ht hlink "new" halfWritten).2.2.2.1 _ _ (Prod.ext rfl hfails)
  exact ⟨ht, hreal, Prod.ext h hfails⟩

end SourceTidy.Tree
