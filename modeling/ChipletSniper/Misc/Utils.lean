import Mathlib.Algebra.Order.Ring.Nat

/-!
# Logarithms and random numbers

`floorLog2` and the generator of `rng.h`, which is the one of `drand48`.
-/

namespace ChipletSniper.Misc

/-! ## Logarithms -/

/-- A step of `floorLog2`, with the position and the number. -/
def logStep (width : Nat) (state : Nat × Nat) : Nat × Nat :=
  if state.2 &&& ((2 ^ width - 1) <<< width) ≠ 0 then
    (state.1 + width, state.2 >>> width)
  else state

/-- `floorLog2`. -/
def floorLog2 (n : Nat) : ℤ :=
  if n = 0 then -1
  else (logStep 1 (logStep 2 (logStep 4 (logStep 8 (logStep 16 (0, n)))))).1

theorem and_high_eq_zero {width n : Nat} (bound : n < 2 ^ (2 * width)) :
    n &&& ((2 ^ width - 1) <<< width) = 0 ↔ n < 2 ^ width := by
  have high : n >>> width < 2 ^ width := by
    rw [Nat.shiftRight_eq_div_pow, Nat.div_lt_iff_lt_mul (Nat.two_pow_pos _),
      ← pow_add, ← Nat.two_mul]
    exact bound
  have part : n &&& ((2 ^ width - 1) <<< width) = (n >>> width) <<< width := by
    apply Nat.eq_of_testBit_eq
    intro bit
    rw [Nat.testBit_and, Nat.testBit_shiftLeft, Nat.testBit_shiftLeft,
      Nat.testBit_shiftRight, Nat.testBit_two_pow_sub_one]
    by_cases upper : width ≤ bit
    · have place : width + (bit - width) = bit := by omega
      by_cases inside : bit - width < width
      · simp [upper, inside, place]
      · have clear : n.testBit bit = false := by
          apply Nat.testBit_lt_two_pow
          apply Nat.lt_of_lt_of_le bound
          exact Nat.pow_le_pow_right (by decide) (by omega)
        simp [upper, place, clear]
    · simp [upper]
  have nonzero : 2 ^ width ≠ 0 := Nat.pos_iff_ne_zero.mp (Nat.two_pow_pos _)
  rw [part, Nat.shiftLeft_eq, Nat.mul_eq_zero, or_iff_left nonzero,
    Nat.shiftRight_eq_div_pow, Nat.div_eq_zero_iff_lt (Nat.two_pow_pos _)]

/-- A step halves the length that is left, and the logarithm stays. -/
theorem logStep_spec (width : Nat) {position number n : Nat}
    (log : position + number.log2 = n.log2) (nonzero : number ≠ 0)
    (bound : number < 2 ^ (2 * width)) :
    let next := logStep width (position, number)
    next.1 + next.2.log2 = n.log2 ∧ next.2 ≠ 0 ∧ next.2 < 2 ^ width := by
  rw [logStep]
  by_cases low : number < 2 ^ width
  · rw [if_neg (by rw [not_not]; exact (and_high_eq_zero bound).mpr low)]
    exact ⟨log, nonzero, low⟩
  · rw [if_pos (fun zero => low ((and_high_eq_zero bound).mp zero))]
    have split : number / 2 ^ width ≠ 0 := by
      rw [ne_eq, Nat.div_eq_zero_iff_lt (Nat.two_pow_pos _)]
      exact low
    refine ⟨?_, ?_, ?_⟩
    · simp only [Nat.shiftRight_eq_div_pow]
      have lower := Nat.log2_self_le nonzero
      have upper : number < 2 ^ (number.log2 + 1) := Nat.lt_log2_self
      have long : width ≤ number.log2 := by
        rw [Nat.le_log2 nonzero]
        omega
      have half : (number / 2 ^ width).log2 = number.log2 - width := by
        rw [Nat.log2_eq_iff split]
        constructor
        · rw [Nat.le_div_iff_mul_le (Nat.two_pow_pos _), ← pow_add,
            Nat.sub_add_cancel long]
          exact lower
        · rw [Nat.div_lt_iff_lt_mul (Nat.two_pow_pos _), ← pow_add]
          have whole : number.log2 - width + 1 + width = number.log2 + 1 := by
            omega
          rw [whole]
          exact upper
      rw [half]
      omega
    · rw [Nat.shiftRight_eq_div_pow]
      exact split
    · rw [Nat.shiftRight_eq_div_pow, Nat.div_lt_iff_lt_mul (Nat.two_pow_pos _),
        ← pow_add, ← Nat.two_mul]
      exact bound

theorem floorLog2_eq {n : Nat} (positive : 0 < n) (bound : n < 2 ^ 32) :
    floorLog2 n = n.log2 := by
  obtain ⟨first, nonzero, below⟩ := @logStep_spec 16 0 n n
    (Nat.zero_add _) (by omega) bound
  obtain ⟨second, nonzero, below⟩ := logStep_spec 8 first
    nonzero below
  obtain ⟨third, nonzero, below⟩ := logStep_spec 4 second
    nonzero below
  obtain ⟨fourth, nonzero, below⟩ := logStep_spec 2 third
    nonzero below
  obtain ⟨fifth, nonzero, below⟩ := logStep_spec 1 fourth
    nonzero below
  have one : ∀ number : Nat, number ≠ 0 → number < 2 ^ 1 →
      number.log2 = 0 := by
    intro number nonzero below
    have single : number = 1 := by omega
    rw [single]
    rfl
  rw [one _ nonzero below, Nat.add_zero] at fifth
  rw [floorLog2, if_neg (by omega), ← fifth]

/-! ## Random numbers -/

/-- `rng_seed`. -/
def rngSeed (seed : Nat) : Nat := ((seed <<< 16) % 2 ^ 64 + 0x330E) % 2 ^ 64

/-- `rng_next`, with the state that it leaves. -/
def rngNext (state : Nat) : Nat × Nat :=
  let next := (0x5DEECE66D * state + 0xB) % 2 ^ 64 &&& (2 ^ 48 - 1)
  (next >>> 16, next)

end ChipletSniper.Misc
