import Mathlib.Data.List.Nodup
import Mathlib.Data.List.Perm.Basic

/-!
# Recency stacks

The items of a sequence of uses, each once, with the last used one first.  A
buffer of `n` places that gives up the least recently used item holds the first
`n` of them.
-/

namespace ChipletSniper.Library

variable {Item : Type*} [DecidableEq Item]

/-- The items that were used, with the last use first in both lists. -/
def recent : List Item → List Item
  | [] => []
  | item :: before => item :: (recent before).erase item

/-- The first places do not depend on what an item behind them is. -/
theorem take_erase (items : List Item) (item : Item) (count : Nat) :
    (items.erase item).take count =
      ((items.take (count + 1)).erase item).take count := by
  induction items generalizing count with
  | nil => rfl
  | cons first rest ih =>
      rw [List.take_succ_cons]
      by_cases same : first = item
      · rw [same, List.erase_cons_head, List.erase_cons_head,
          List.take_take, Nat.min_self]
      · have differs : ¬ (first == item) = true := by
          rw [beq_iff_eq]
          exact same
        rw [List.erase_cons_tail differs, List.erase_cons_tail differs]
        cases count with
        | zero => rfl
        | succ count =>
            rw [List.take_succ_cons, List.take_succ_cons,
              ih]

/-- The buffer of `count + 1` places behind one more use. -/
theorem take_recent_cons (item : Item) (before : List Item) (count : Nat) :
    (recent (item :: before)).take (count + 1) =
      item :: (((recent before).take (count + 1)).erase item).take count := by
  rw [recent, List.take_succ_cons, take_erase]

/-- Whatever is in a buffer is in every larger one. -/
theorem take_recent_subset {small large : Nat} (fits : small ≤ large)
    {item : Item} {uses : List Item}
    (member : item ∈ (recent uses).take small) :
    item ∈ (recent uses).take large :=
  (List.take_subset_take_left _ fits) member

end ChipletSniper.Library
