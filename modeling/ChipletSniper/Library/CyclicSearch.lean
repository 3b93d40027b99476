import Mathlib.Data.Fin.Basic

/-!
# Searching around a circle

A search that starts at some position of a circle and goes on with the next
one as long as it has steps left.
-/

namespace ChipletSniper.Library

variable {m : Nat}

/-- The next position on a circle. -/
def cyclicNext (position : Fin m) : Fin m :=
  ⟨(position + 1) % m, Nat.mod_lt _ position.pos⟩

/-- The first position that is wanted, and the one behind it. -/
def cyclicSearch (wanted : Fin m → Bool) : Nat → Fin m → Option (Fin m × Fin m)
  | 0, _ => none
  | steps + 1, position =>
      if wanted position then some (position, cyclicNext position)
      else cyclicSearch wanted steps (cyclicNext position)

theorem wanted_of_cyclicSearch {wanted : Fin m → Bool} {steps : Nat}
    {position found next : Fin m}
    (search : cyclicSearch wanted steps position = some (found, next)) :
    wanted found = true := by
  induction steps generalizing position with
  | zero => cases search
  | succ steps ih =>
      rw [cyclicSearch] at search
      split at search
      next isWanted =>
        cases search
        exact isWanted
      next => exact ih search

theorem cyclicNext_iterate (position : Fin m) (steps : Nat) :
    (cyclicNext^[steps] position : Nat) = (position + steps) % m := by
  induction steps with
  | zero => exact (Nat.mod_eq_of_lt position.isLt).symm
  | succ steps ih =>
      rw [Function.iterate_succ_apply', cyclicNext]
      simp only
      rw [ih, Nat.mod_add_mod, Nat.add_assoc]

/-- Every position is a number of steps below `m` away. -/
theorem exists_iterate_eq (position target : Fin m) :
    ∃ steps < m, cyclicNext^[steps] position = target := by
  refine ⟨(target + (m - position)) % m, Nat.mod_lt _ position.pos, ?_⟩
  apply Fin.ext
  rw [cyclicNext_iterate, Nat.add_mod_mod]
  have whole : (position : Nat) + (target + (m - position)) = target + m := by
    omega
  rw [whole, Nat.add_mod_right, Nat.mod_eq_of_lt target.isLt]

theorem cyclicSearch_none {wanted : Fin m → Bool} {steps : Nat}
    {position : Fin m} (search : cyclicSearch wanted steps position = none)
    {step : Nat} (reached : step < steps) :
    wanted (cyclicNext^[step] position) = false := by
  induction steps generalizing position step with
  | zero => omega
  | succ steps ih =>
      rw [cyclicSearch] at search
      split at search
      next => cases search
      next unwanted =>
        cases step with
        | zero => simpa using unwanted
        | succ step => exact ih search (by omega)

/-- A whole round finds what there is. -/
theorem cyclicSearch_isSome {wanted : Fin m → Bool} {steps : Nat}
    (round : m ≤ steps) (position : Fin m) {target : Fin m}
    (isWanted : wanted target = true) :
    ∃ found next, cyclicSearch wanted steps position = some (found, next) := by
  cases search : cyclicSearch wanted steps position with
  | some result => exact ⟨result.1, result.2, rfl⟩
  | none =>
      obtain ⟨step, reached, rfl⟩ := exists_iterate_eq position target
      rw [cyclicSearch_none search (by omega)] at isWanted
      cases isWanted

end ChipletSniper.Library
