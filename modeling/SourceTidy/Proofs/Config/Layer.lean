import Mathlib.Data.List.Induction
import SourceTidy.Text.Quoted

/-!
# Layers of a list

A source can give a whole list of texts, texts that extend it, both or neither (`Layer`). Layers can be laid over each other
first and make a list then: that keeps the last whole list and the last extension, whichever layers they are from
(`Layer.merged`). Or they can be taken one by one, each to replace the list and then to extend it (`Layer.layered`). The two
give the same as long as an extension is dropped for a later one when, and only when, a later whole list drops it anyway
(`Layer.list_merged_eq_layered_iff`).
-/

namespace SourceTidy.Config

/-- What a source gives for a list: the whole of it, and texts that extend it. -/
structure Layer where
  whole : Option (List Text) := none
  extra : Option (List Text) := none

namespace Layer

/-- The list that a layer makes of the one below it. -/
def list (below : List Text) (a : Layer) : List Text := a.whole.getD below ++ a.extra.getD []

/-- A layer laid over another: what it does not give is taken from below. -/
def overlay (below a : Layer) : Layer := ⟨a.whole.or below.whole, a.extra.or below.extra⟩

/-- Layers laid over each other, from the lowest to the highest. -/
def merged (layers : List Layer) : Layer := layers.foldl overlay {}

/-- The list that layers make of a list one after the other, from the lowest to the highest. -/
def layered (default : List Text) (layers : List Layer) : List Text := layers.foldl list default

/-- Whether a layer extends its list by anything. -/
def Extends (a : Layer) : Prop := a.extra.getD [] ≠ []

/-- Whether one of some layers gives the whole list. -/
def Replaced (above : List Layer) : Prop := ∃ b ∈ above, b.whole.isSome

/-- Whether one of some layers gives an extension. -/
def Overridden (above : List Layer) : Prop := ∃ b ∈ above, b.extra.isSome

/-- Whether taking layers one by one makes no difference: each one that extends has an extension above it if and only if it has a
whole list above it. -/
def Agree (layers : List Layer) : Prop :=
  ∀ a above, a :: above <:+ layers → a.Extends → (Overridden above ↔ Replaced above)

theorem merged_concat (layers : List Layer) (a : Layer) : merged (layers ++ [a]) = (merged layers).overlay a :=
  List.foldl_append

theorem layered_concat (default : List Text) (layers : List Layer) (a : Layer) :
    layered default (layers ++ [a]) = a.list (layered default layers) :=
  List.foldl_append

theorem not_replaced_nil : ¬ Replaced [] := nofun

theorem not_overridden_nil : ¬ Overridden [] := nofun

theorem replaced_concat (above : List Layer) (a : Layer) : Replaced (above ++ [a]) ↔ Replaced above ∨ a.whole.isSome := by
  simp [Replaced, or_and_right, exists_or]

theorem overridden_concat (above : List Layer) (a : Layer) :
    Overridden (above ++ [a]) ↔ Overridden above ∨ a.extra.isSome := by
  simp [Overridden, or_and_right, exists_or]

theorem forall_suffix_nil {P : Layer → List Layer → Prop} : ∀ a above, a :: above <:+ [] → P a above :=
  fun _ _ h => absurd (List.suffix_nil.1 h) (List.cons_ne_nil _ _)

/-- What holds of each layer and those above it, when one more is put on top. -/
theorem forall_suffix_concat {layers : List Layer} {top : Layer} {P : Layer → List Layer → Prop} :
    (∀ a above, a :: above <:+ layers ++ [top] → P a above) ↔
      (∀ a above, a :: above <:+ layers → P a (above ++ [top])) ∧ P top [] := by
  refine ⟨fun h => ⟨fun a above hsuffix => ?_, ?_⟩, fun ⟨h, htop⟩ a above hsuffix => ?_⟩
  · exact h a (above ++ [top]) (List.suffix_concat_iff.2 (.inr ⟨a :: above, rfl, hsuffix⟩))
  · exact h top [] (List.suffix_append layers [top])
  · rcases List.suffix_concat_iff.1 hsuffix with hnil | ⟨lower, hlower, hbelow⟩
    · cases hnil
    · cases lower with
      | nil =>
        cases hlower
        exact htop
      | cons b lower =>
        cases hlower
        exact h _ _ hbelow

/-- The last extension adds nothing when every layer that extends has an extension above it. -/
theorem extra_merged_eq_nil_iff (layers : List Layer) :
    (merged layers).extra.getD [] = [] ↔ ∀ a above, a :: above <:+ layers → a.Extends → Overridden above := by
  induction layers using List.reverseRecOn with
  | nil => exact iff_of_true rfl forall_suffix_nil
  | append_singleton layers top ih =>
    rw [forall_suffix_concat, merged_concat]
    simp only [overridden_concat, not_overridden_nil]
    cases hextra : top.extra with
    | some ts => simp [overlay, Extends, hextra]
    | none => simp [overlay, Extends, hextra, ih]

/-- What layers make of a list one by one starts with the last whole list. -/
theorem prefix_layered (default : List Text) (layers : List Layer) :
    ∃ extras, layered default layers = (merged layers).whole.getD default ++ extras := by
  induction layers using List.reverseRecOn with
  | nil => exact ⟨[], (List.append_nil default).symm⟩
  | append_singleton layers top ih =>
    rw [layered_concat, merged_concat]
    cases hwhole : top.whole with
    | some ts => exact ⟨top.extra.getD [], by simp [list, overlay, hwhole]⟩
    | none =>
      obtain ⟨extras, ih⟩ := ih
      exact ⟨extras ++ top.extra.getD [], by simp [list, overlay, hwhole, ih]⟩

/-- It is the last whole list when every layer that extends has a whole list above it. -/
theorem layered_eq_whole_iff (default : List Text) (layers : List Layer) :
    layered default layers = (merged layers).whole.getD default ↔
      ∀ a above, a :: above <:+ layers → a.Extends → Replaced above := by
  induction layers using List.reverseRecOn with
  | nil => exact iff_of_true rfl forall_suffix_nil
  | append_singleton layers top ih =>
    rw [forall_suffix_concat, layered_concat, merged_concat]
    simp only [replaced_concat, not_replaced_nil]
    cases hwhole : top.whole with
    | some ts => simp [list, overlay, Extends, hwhole]
    | none =>
      obtain ⟨extras, hextras⟩ := prefix_layered default layers
      simp only [Option.isSome_none, Bool.false_eq_true, or_false, ← ih]
      simp [list, overlay, Extends, hwhole, hextras]

/-- Merging layers first and taking them one by one give the same list exactly when the layers agree. -/
theorem list_merged_eq_layered_iff (default : List Text) (layers : List Layer) :
    (merged layers).list default = layered default layers ↔ Agree layers := by
  unfold Agree
  induction layers using List.reverseRecOn with
  | nil => exact iff_of_true (List.append_nil default) forall_suffix_nil
  | append_singleton layers top ih =>
    rw [forall_suffix_concat, layered_concat, merged_concat]
    simp only [overridden_concat, replaced_concat, not_overridden_nil, not_replaced_nil]
    cases hwhole : top.whole with
    | some ts =>
      cases hextra : top.extra with
      | some us => simp [list, overlay, hwhole, hextra]
      | none => simpa [list, overlay, Extends, hwhole, hextra] using extra_merged_eq_nil_iff layers
    | none =>
      cases hextra : top.extra with
      | some us => simp [list, overlay, hwhole, hextra, ← layered_eq_whole_iff default, eq_comm]
      | none => simpa [list, overlay, Extends, hwhole, hextra] using ih

end Layer

end SourceTidy.Config
