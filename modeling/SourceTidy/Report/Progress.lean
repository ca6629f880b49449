/-!
# Progress

A count of the files that have come up. It is only shown when it is asked for and there is a terminal to show it on, but
it counts in any case.
-/

namespace SourceTidy.Report

/-- The progress of a run. -/
structure Progress where
  isEnabled : Bool
  completed : Nat := 0
  deriving DecidableEq, Repr

namespace Progress

/-- The progress at the start of a run. -/
def start (requested terminal : Bool) : Progress := ⟨requested && terminal, 0⟩

/-- The progress when one more file has come up. -/
def advance (p : Progress) : Progress := { p with completed := p.completed + 1 }

/-- Whether a run tells the progress of every file. -/
def isHooked (p : Progress) : Bool := p.isEnabled

end Progress
end SourceTidy.Report
