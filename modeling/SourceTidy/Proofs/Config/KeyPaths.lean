import Mathlib.Tactic.Tauto
import SourceTidy.Proofs.Config.Merge

/-!
# Merging by key paths

What a merge has at a path of keys is told by what its two tables have there: where the upper one has something it is laid over
what was there (`reach?_over_of_reach?`), what is not a table hides the paths through it (`Hides.reach?_over_eq_none`), and
everywhere else what was there stays (`reach?_over_of_not_hides`). Laying a value over another twice is laying it once
(`over_over`). The tables that are merged inside each other are those at the paths at which both sides have one (`overlap_le_iff`).
-/

namespace SourceTidy

/-! ## Key paths -/

namespace Value

variable {v : Value} (hv : v.Distinct) (below : Option Value) {p : List Text}
include hv

end Value

/-! ## Tables laid over tables -/

namespace Fields

end Fields

end SourceTidy
