import Mathlib.Data.List.Basic

/-!
# Framed sequences

Items that come in groups: a group opens with one item, goes on with items
that continue the previous one, and ends with a closing item.  The state of a
reader is the last item of a group that is still open.
-/

namespace ChipletSniper.Library

section Framing

variable {Item : Type*} (accepts : Option Item → Item → Bool)
variable (closes : Item → Bool)

/-- The reader after one more item; `none` if the item is out of place. -/
def advance (current : Option Item) (item : Item) : Option (Option Item) :=
  if accepts current item then
    some (if closes item then none else some item)
  else none

/-- The reader after a list of items. -/
def progress (current : Option Item) (items : List Item) :
    Option (Option Item) :=
  items.foldlM (advance accepts closes) current

variable {accepts closes}

theorem progress_append (current : Option Item) (first second : List Item) :
    progress accepts closes current (first ++ second) =
      (progress accepts closes current first).bind fun middle =>
        progress accepts closes middle second :=
  List.foldlM_append

theorem progress_singleton (current : Option Item) (item : Item) :
    progress accepts closes current [item] =
      advance accepts closes current item := by
  simp [progress]

/-- One more item at the end. -/
theorem progress_snoc {current middle : Option Item} {items : List Item}
    (before : progress accepts closes current items = some middle)
    (item : Item) :
    progress accepts closes current (items ++ [item]) =
      advance accepts closes middle item := by
  rw [progress_append, before, Option.bind_some, progress_singleton]

/-- A framed list can be cut anywhere. -/
theorem exists_progress_of_append {current last : Option Item}
    {first second : List Item}
    (whole : progress accepts closes current (first ++ second) = some last) :
    ∃ middle,
      progress accepts closes current first = some middle ∧
        progress accepts closes middle second = some last := by
  rw [progress_append] at whole
  exact Option.bind_eq_some_iff.mp whole

theorem advance_of_progress {current middle last : Option Item}
    {first rest : List Item} {item : Item}
    (whole :
      progress accepts closes current (first ++ item :: rest) = some last)
    (before : progress accepts closes current first = some middle) :
    ∃ next,
      advance accepts closes middle item = some next ∧
        progress accepts closes next rest = some last := by
  rw [progress_append, before, Option.bind_some] at whole
  obtain ⟨next, step, tail⟩ :=
    exists_progress_of_append
      (show progress accepts closes middle ([item] ++ rest) = some last
        from whole)
  rw [progress_singleton] at step
  exact ⟨next, step, tail⟩

theorem accepts_of_advance {current next : Option Item} {item : Item}
    (step : advance accepts closes current item = some next) :
    accepts current item = true ∧
      next = if closes item then none else some item := by
  unfold advance at step
  split at step
  case isTrue accepted => exact ⟨accepted, (Option.some.inj step).symm⟩
  case isFalse => cases step

end Framing

end ChipletSniper.Library
