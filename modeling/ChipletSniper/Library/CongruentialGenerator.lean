import Mathlib.Data.Nat.ModEq
import Mathlib.Logic.Function.Iterate
import Mathlib.Tactic.Ring

/-!
# Linear congruential generators

Modulo a power of two, a generator with an odd increment whose multiplier is
one more than a multiple of four reaches every number from everywhere.
-/

namespace ChipletSniper.Library

variable {multiplier increment : Nat}

/-- A step before it is reduced. -/
def congruentialStep (multiplier increment seed : Nat) : Nat :=
  seed * multiplier + increment

/-- A step of the generator. -/
def reducedStep (multiplier increment modulus seed : Nat) : Nat :=
  congruentialStep multiplier increment seed % modulus

/-- It does not matter whether every step is reduced or only the last one. -/
theorem reducedStep_iterate (modulus steps seed : Nat) :
    (reducedStep multiplier increment modulus)^[steps] (seed % modulus) =
      (congruentialStep multiplier increment)^[steps] seed % modulus := by
  induction steps with
  | zero => rfl
  | succ steps ih =>
      rw [Function.iterate_succ_apply', Function.iterate_succ_apply',
        ih, reducedStep, congruentialStep, congruentialStep,
        Nat.add_mod, Nat.mod_mul_mod, ← Nat.add_mod]

section Steps

variable (byFour : multiplier % 4 = 1) (odd : increment % 2 = 1)
include byFour odd

/-- `2 ^ k` steps multiply by a number of the same kind, and add an odd
multiple of `2 ^ k`. -/
theorem iterate_two_pow_steps (k : Nat) :
    ∃ factor offset, ∀ seed,
      (congruentialStep multiplier increment)^[2 ^ k] seed =
        seed * (1 + 2 ^ (k + 2) * factor) + 2 ^ k * (2 * offset + 1) := by
  induction k with
  | zero =>
      refine ⟨multiplier / 4, increment / 2, fun seed => ?_⟩
      have first : 1 + 2 ^ (0 + 2) * (multiplier / 4) = multiplier := by omega
      have second : 2 ^ 0 * (2 * (increment / 2) + 1) = increment := by omega
      rw [first, second, pow_zero, Function.iterate_one, congruentialStep]
  | succ k ih =>
      obtain ⟨factor, offset, steps⟩ := ih
      refine ⟨factor + 2 ^ (k + 1) * factor * factor,
        offset + 2 ^ k * factor * (2 * offset + 1), fun seed => ?_⟩
      rw [pow_succ, Nat.mul_two, Function.iterate_add_apply, steps, steps]
      ring

theorem iterate_two_pow_modEq (k seed : Nat) :
    (congruentialStep multiplier increment)^[2 ^ k] seed ≡
      seed + 2 ^ k [MOD 2 ^ (k + 1)] := by
  obtain ⟨factor, offset, steps⟩ := iterate_two_pow_steps byFour odd k
  rw [steps]
  have split : seed * (1 + 2 ^ (k + 2) * factor) + 2 ^ k * (2 * offset + 1) =
      seed + 2 ^ k + 2 ^ (k + 1) * (2 * seed * factor + offset) := by
    ring
  rw [split, Nat.ModEq, Nat.add_mul_mod_self_left]

/-- The generator reaches every number modulo every power of two. -/
theorem exists_iterate_modEq (k seed target : Nat) :
    ∃ steps, (congruentialStep multiplier increment)^[steps] seed ≡
      target [MOD 2 ^ k] := by
  induction k with
  | zero => exact ⟨0, by simp [Nat.ModEq, Nat.mod_one]⟩
  | succ k ih =>
      obtain ⟨steps, reached⟩ := ih
      generalize here : (congruentialStep multiplier increment)^[steps] seed =
        number at reached
      -- The next bit is right, or `2 ^ k` steps more change it.
      have bit : number ≡ target [MOD 2 ^ (k + 1)] ∨
          number + 2 ^ k ≡ target [MOD 2 ^ (k + 1)] := by
        have positive : 0 < 2 ^ k := Nat.two_pow_pos k
        rw [Nat.ModEq] at reached ⊢
        rw [Nat.ModEq, pow_succ, Nat.mod_mul, Nat.mod_mul, Nat.mod_mul,
          Nat.add_mod_right, Nat.add_div_right _ positive, reached]
        have small := Nat.mod_two_eq_zero_or_one (number / 2 ^ k)
        have other := Nat.mod_two_eq_zero_or_one (target / 2 ^ k)
        have next : (number / 2 ^ k).succ % 2 = 1 - number / 2 ^ k % 2 := by
          omega
        rw [next]
        rcases small with small | small <;> rcases other with other | other <;>
          simp [small, other]
      cases bit with
      | inl right => exact ⟨steps, by rw [here]; exact right⟩
      | inr wrong =>
          refine ⟨2 ^ k + steps, ?_⟩
          rw [Function.iterate_add_apply, here]
          exact (iterate_two_pow_modEq byFour odd k number).trans wrong

end Steps

end ChipletSniper.Library
