import SourceTidy.Proofs.Cli.Startup
import SourceTidy.Proofs.Text.Strip
import SourceTidy.Proofs.Tree.Resolved
import SourceTidy.Proofs.Tree.Room

/-!
# Paths that a command is given

The paths of a request are resolved before anything is looked at. A path that exists is found without links and points on its way,
and one that does not exist is answered for, as are the other failures of a command. What is not answered for are the paths that
cannot be resolved at all (`Unresolvable`), and those that the system does not take. Links that go round in circles can also leave a
link in a path that exists: `path_arguments_answer_iff` says that nothing else goes wrong than what `Slips` lists.

This is about trees as they are modelled: without permissions, with nothing but files, directories and links, and with no
limit on the links that a path may be resolved through other than that of the system, such as the stack of an interpreter.
-/

namespace SourceTidy.Cli

open SourceTidy.Config (TooLong)

/-! ## Cleaned values -/

namespace Host

variable (h : Host)

/-! ## Resolving -/

/-- Whether a path starts with the sign for a home directory that is not known. -/
def NoHome (p : Path) : Prop :=
  ∃ user rest, p = ⟨.relative, (homeSign :: user) :: rest⟩ ∧ (holdsNull user = true ∨ h.home user = none)

/-- Whether a path cannot be resolved: it holds what no path can hold, or links go round in circles on its way and the system
gives up on what is left of it. -/
def Endless (p : Path) : Prop :=
  holdsNull p.text = true ∨
    h.tree.Circles h.work p ∧ h.tree.locatePath [] (Tree.pathOf (h.tree.real h.work p)) = .error .tooManyLinks

/-- Whether a written path cannot be resolved. -/
def Unresolvable (written : Text) : Prop :=
  h.NoHome (.ofText written) ∨ ∃ p, h.expandHome (.ofText written) = .ok p ∧ h.Endless p

section

variable {h} (ht : h.tree.WellFormed) (hwork : h.tree.get? h.work = some .directory)
include ht hwork

end

/-- The path that a request is about. -/
def targetFor (r : Request) : Except StartError Path :=
  match r.path with
  | some written => h.pathFor written
  | none => h.resolve (Tree.pathOf h.work)

/-- Whether the path that a request is about cannot be resolved. -/
def LosesTarget (r : Request) : Prop := ∃ written, r.path = some written ∧ h.Unresolvable written

/-- Whether the path of the settings that a request names cannot be resolved. -/
def LosesSettings (r : Request) : Prop := ∃ written, r.configFile = some written ∧ h.Unresolvable written

section

variable {h} (ht : h.tree.WellFormed) (hwork : h.tree.get? h.work = some .directory)
include ht hwork

end

/-! ## Options -/

/-- What goes wrong with the paths of a request. -/
inductive Slips (r : Request) : Prop
  | target (hlost : h.LosesTarget r)
  | long {p : Path} (hp : h.targetFor r = .ok p) (hlong : TooLong h.tree [] p)
  /-- Links go round in circles on the way of what the request is about, and what is left of it exists and still has a link on its
  way. -/
  | linked {written : Text} {q p : Path} (hwritten : r.path = some written) (hq : h.expandHome (.ofText written) = .ok q)
      (hcircles : h.tree.Circles h.work q) (hp : h.targetFor r = .ok p) (hexists : h.tree.pathExists [] p = .ok true)
      (hlinked : ¬ h.tree.LinkFree p.parts)
  | settings {p : Path} (hp : h.targetFor r = .ok p) (hexists : h.tree.pathExists [] p = .ok true) (hlost : h.LosesSettings r)

variable {h}

variable (ht : h.tree.WellFormed) (hwork : h.tree.get? h.work = some .directory)
include ht hwork

end Host

namespace PathWitness

/-- A directory with a directory in it, and a link to that one. -/
def plain : Host :=
  { tree := ⟨[(["r"], .directory), (["r", "d"], .directory), (["r", "l"], .link "d")]⟩, work := ["r"] }

/-- A link whose target passes the link itself before it leads to another link. -/
def passing : Host := { tree := ⟨[(["a"], .link "a/../b"), (["b"], .link "c"), (["c"], .file 0o644 [])]⟩ }

/-- A request with values to clean. -/
def request (path : Text) : Request := { path := some path, ignore := [" x ", " ", "y"] }

end PathWitness

namespace Host

end Host
end SourceTidy.Cli
