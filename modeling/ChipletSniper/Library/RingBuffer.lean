import Mathlib.Data.List.Range
import Mathlib.Data.Nat.ModEq
import Mathlib.Logic.Function.Basic

/-!
# Ring buffers

A ring of `size` slots holds a sequence from a start on. An item joins it in
the slot behind the last one, and its first item leaves when the start moves.
-/

namespace ChipletSniper.Library

/-- One turn around a ring at most. -/
theorem mod_turn {number size : Nat} (turn : number < size + size) :
    number % size = if number < size then number else number - size := by
  split
  next inside => exact Nat.mod_eq_of_lt inside
  next outside =>
      rw [Nat.mod_eq_sub_mod (not_lt.mp outside),
        Nat.mod_eq_of_lt (by omega)]

/-- Different places of one turn are different slots. -/
theorem ring_slot_injective {size start first second : Nat}
    (firstInside : first < size) (secondInside : second < size)
    (same : (start + first) % size = (start + second) % size) :
    first = second := by
  have equal : first ≡ second [MOD size] :=
    Nat.ModEq.add_left_cancel' start same
  exact Nat.ModEq.eq_of_lt_of_lt equal firstInside secondInside

variable {Item : Type*}

/-- The sequence in the slots from `start` on. -/
def ringContents (slots : Nat → Item) (size start count : Nat) : List Item :=
  (List.range count).map fun place => slots ((start + place) % size)

variable {slots : Nat → Item} {size start count : Nat}

@[simp] theorem length_ringContents :
    (ringContents slots size start count).length = count := by
  rw [ringContents, List.length_map, List.length_range]

/-- An item joins at the end. -/
theorem ringContents_push (slots : Nat → Item) (start : Nat)
    (room : count < size) (item : Item) :
    ringContents (Function.update slots ((start + count) % size) item) size
        start (count + 1) =
      ringContents slots size start count ++ [item] := by
  unfold ringContents
  rw [List.range_succ, List.map_append, List.map_singleton,
    Function.update_self]
  congr 1
  refine List.map_congr_left fun place inside => ?_
  have below := List.mem_range.mp inside
  refine Function.update_of_ne (fun same => ?_) _ _
  exact below.ne (ring_slot_injective (below.trans room) room same)

/-- The first item leaves. -/
theorem ringContents_pop (slots : Nat → Item) (size start count : Nat) :
    ringContents slots size start (count + 1) =
      slots (start % size) ::
        ringContents slots size ((start + 1) % size) count := by
  unfold ringContents
  rw [List.range_succ_eq_map, List.map_cons, List.map_map]
  refine congrArg₂ List.cons rfl (List.map_congr_left fun place _ => ?_)
  rw [Nat.mod_add_mod, Nat.add_assoc, Nat.add_comm 1 place]
  rfl

end ChipletSniper.Library
