import SourceTidy.Glob.Mask
import SourceTidy.Text.Quoted

/-!
# Sets of masks

An ordered set of masks. Masks are stripped when they are added, and neither a blank one nor one that is already there
is added. A frozen set is a snapshot that takes no more masks.
-/

namespace SourceTidy

/-- An ordered set of masks. -/
structure MaskSet where
  masks : List Text := []
  isFrozen : Bool := false
  deriving DecidableEq, Repr

/-- A mask was added to a frozen set. -/
structure FrozenError where
  mask : Text
  deriving DecidableEq, Repr

/-- The wording of the refusal. -/
def FrozenError.message (e : FrozenError) : Text := "cannot add " ++ e.mask.quoted ++ " to a frozen pattern set"

namespace MaskSet

/-- The masks after one more was added. -/
def insert (masks : List Text) (mask : Text) : List Text :=
  let stripped := mask.strip
  if stripped.isEmpty || masks.contains stripped then masks else masks ++ [stripped]

/-- Adds a mask. -/
def add (s : MaskSet) (mask : Text) : Except FrozenError MaskSet :=
  if s.isFrozen then .error ⟨mask⟩ else .ok { s with masks := insert s.masks mask }

/-- Adds masks in order. -/
def extend (s : MaskSet) : List Text → Except FrozenError MaskSet
  | [] => .ok s
  | mask :: rest => do extend (← s.add mask) rest

/-- The set of some masks. -/
def ofList (masks : List Text) : MaskSet := ⟨masks.foldl insert [], false⟩

/-- A snapshot of a set. -/
def freeze (s : MaskSet) : MaskSet := if s.isFrozen then s else { ofList s.masks with isFrozen := true }

/-- Whether a name fits one of the masks. -/
def accepts (s : MaskSet) (name : Text) : Bool := s.masks.any (Mask.accepts · name)

/-- A set as it is shown. -/
def shown (s : MaskSet) : Text :=
  "GlobSet(" ++ Text.quotedList s.masks ++ (if s.isFrozen then ", frozen)" else ", mutable)" : String)

end MaskSet
end SourceTidy
