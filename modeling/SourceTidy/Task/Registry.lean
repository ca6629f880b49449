import SourceTidy.Task.Builtin

/-!
# Registries

A registry is an ordered list of tasks that only grows. Tasks are found in it by place, where negative places count
from the end, and by ranges of places with a step.
-/

namespace SourceTidy.Task

/-- An ordered list of tasks. -/
abbrev Registry := List Task

namespace Registry

/-- A text that counts as given only when it is not empty. -/
def given? (t : Option Text) : Option Text := t.filter fun t => !t.isEmpty

/-- The task of a handler under a name, and under the handler's own name when none is given. -/
def taskOf (handler : Handler) (ownName : Text) (mask name : Option Text) : Task :=
  ⟨(given? name).getD ownName, given? mask, handler⟩

/-- A registry with one more task at its end. -/
def register (r : Registry) (t : Task) : Registry := r ++ [t]

/-- The names of the tasks in order. -/
def names (r : Registry) : List Text := r.map (·.name)

/-- Why a registry has no answer. -/
inductive Refusal where
  | outOfRange
  /-- The place is no integer of 64 bits. -/
  | tooLarge
  | zeroStep
  deriving DecidableEq, Repr

/-- The wording of a refusal. -/
def Refusal.message : Refusal → Text
  | outOfRange => "list index out of range"
  | tooLarge => "cannot fit 'int' into an index-sized integer"
  | zeroStep => "slice step cannot be zero"

/-- Whether a number is a signed integer of 64 bits. -/
def isWord (n : Int) : Bool := -0x8000000000000000 ≤ n && n < 0x8000000000000000

/-- The task at a place. -/
def taskAt (r : Registry) (place : Int) : Except Refusal Task :=
  let n := if place < 0 then place + r.length else place
  if !isWord place then .error .tooLarge
  else
    match (if n < 0 then none else r[n.toNat]?) with
    | some t => .ok t
    | none => .error .outOfRange

/-- A bound of a range as a place: negative bounds count from the end, and what lies outside is moved to the ends. -/
def bounded (low high length bound : Int) : Int := max low (min high (if bound < 0 then bound + length else bound))

/-- The tasks from a place up to but without another, a step apart; a negative step goes back. -/
def slice (r : Registry) (first last step : Option Int) : Except Refusal (List Task) :=
  let n : Int := r.length
  let step := step.getD 1
  if step = 0 then .error .zeroStep
  else if 0 < step then
    let a := (first.map (bounded 0 n n)).getD 0
    let b := (last.map (bounded 0 n n)).getD n
    .ok ((List.range ((b - a + step - 1) / step).toNat).filterMap fun (i : Nat) => r[(a + i * step).toNat]?)
  else
    let a := (first.map (bounded (-1) (n - 1) n)).getD (n - 1)
    let b := (last.map (bounded (-1) (n - 1) n)).getD (-1)
    .ok ((List.range ((a - b - step - 1) / -step).toNat).filterMap fun (i : Nat) => r[(a + i * step).toNat]?)

end Registry
end SourceTidy.Task
