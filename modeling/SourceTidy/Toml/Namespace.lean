import SourceTidy.Toml.Lexeme

/-!
# Namespaces of a TOML document

A document writes one nested table from many places. `descend` finds the place of a key in it, and `Marks` remembers
which places may no longer be written: those of arrays and inline tables, and those of tables that are already there.
-/

namespace SourceTidy.Toml

/-- Why a place may not be written. -/
inductive MarkKind where
  /-- It belongs to an array or an inline table. -/
  | frozen
  /-- It is a table that was declared. -/
  | declared
  deriving DecidableEq, Repr

/-- A mark on a place; a deep one also holds for all places below. -/
structure Mark where
  key : List Text
  kind : MarkKind
  deep : Bool
  deriving DecidableEq, Repr

/-- The marks of a document. -/
abbrev Marks := List Mark

namespace Marks

/-- Whether a place is marked. -/
def has (marks : Marks) (key : List Text) (kind : MarkKind) : Bool :=
  marks.any fun m => m.kind == kind && (m.key == key || (m.deep && m.key.isPrefixOf key))

/-- The marks without those of a place and of all places below it. -/
def clear (marks : Marks) (key : List Text) : Marks := marks.filter fun m => !key.isPrefixOf m.key

end Marks

/-- The last table of an array of tables. -/
def lastTable? (vs : List Value) : Option Fields :=
  match vs.getLast? with
  | some (.table fields) => some fields
  | _ => none

/-- A table after a change to the table at a key below it. Tables on the way that are missing are made, and, if
`throughArrays` is set, an array on the way stands for its last table. Fails with a problem where something else than a
table is on the way. -/
def descend (throughArrays : Bool) (change : Fields → Except Problem Fields) :
    List Text → Fields → Except Problem Fields
  | [], t => change t
  | k :: ks, t =>
    match t.get? k with
    | none => do return t.put k (.table (← descend throughArrays change ks []))
    | some (.table sub) => do return t.put k (.table (← descend throughArrays change ks sub))
    | some (.array vs) =>
      match throughArrays, lastTable? vs with
      | true, some sub => do
        let sub' ← descend throughArrays change ks sub
        return t.put k (.array (vs.dropLast ++ [.table sub']))
      | _, _ => .error .overwrites
    | some _ => .error .overwrites

/-- The change that puts a value at a new key. -/
def putNew (k : Text) (v : Value) (taken : Problem) (t : Fields) : Except Problem Fields :=
  if t.has k then .error taken else .ok (t.put k v)

/-- The change that puts an empty table at the end of the array of tables at a key. -/
def appendTable (k : Text) (t : Fields) : Except Problem Fields :=
  match t.get? k with
  | none => .ok (t.put k (.array [.table []]))
  | some (.array vs) => .ok (t.put k (.array (vs ++ [.table []])))
  | some _ => .error .overwrites

/-- Whether a value closes its place to later writing. -/
def closesPlace : Value → Bool
  | .array _ | .table _ => true
  | _ => false

end SourceTidy.Toml
