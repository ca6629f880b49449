import SourceTidy.Value.Basic

/-!
# Merging tables

Two tables are merged key by key. Where both hold tables the tables are merged, and everywhere else what the upper table
holds replaces what the lower one holds. Keys keep the order of the lower table, and new keys follow.
-/

namespace SourceTidy

mutual

/-- What stands at a key when a value is laid over what was there. -/
def Value.over (below : Option Value) : Value → Value
  | .table upper =>
    match below with
    | some (.table lower) => .table (Fields.merge lower upper)
    | _ => .table upper
  | v => v

/-- A table with another laid over it. -/
def Fields.merge (lower : Fields) : List (Text × Value) → Fields
  | [] => lower
  | (k, v) :: rest => Fields.merge (Fields.put lower k (Value.over (Fields.get? lower k) v)) rest

end

mutual

/-- How many tables are merged inside each other when a value is laid over what was there. -/
def Value.overlap (below : Option Value) : Value → Nat
  | .table upper =>
    match below with
    | some (.table lower) => Fields.overlap lower upper
    | _ => 0
  | _ => 0

/-- How many tables are merged inside each other by a merge, the two that it is about among them. -/
def Fields.overlap (lower : Fields) : List (Text × Value) → Nat
  | [] => 1
  | (k, v) :: rest => max (1 + Value.overlap (Fields.get? lower k) v) (Fields.overlap lower rest)

end

end SourceTidy
