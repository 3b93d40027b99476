import Mathlib.Algebra.Order.Ring.Nat
import Mathlib.Data.Nat.Prime.Basic
import Mathlib.Tactic.Ring

/-!
# Exclusive or below a bound

Whether the exclusive or of two numbers stays below a bound that is a multiple
of a power of two is decided by the quotients.
-/

namespace ChipletSniper.Library

theorem xor_one (q : Nat) : q ^^^ 1 = 2 * (q / 2) + (1 - q % 2) := by
  have half : (q ^^^ 1) / 2 ^ 1 = q / 2 := by
    rw [Nat.xor_div_two_pow, Nat.pow_one, (by decide : 1 / 2 = 0), Nat.xor_zero]
  have bit : (q ^^^ 1) % 2 ^ 1 = 1 - q % 2 := by
    rw [Nat.xor_mod_two_pow, Nat.pow_one]
    rcases Nat.mod_two_eq_zero_or_one q with even | odd
    · rw [even]
      rfl
    · rw [odd]
      rfl
  rw [Nat.pow_one] at half bit
  omega

theorem lt_mul_iff_div_lt {number e m : Nat} :
    number < 2 ^ e * m ↔ number / 2 ^ e < m := by
  rw [Nat.div_lt_iff_lt_mul (Nat.two_pow_pos e), Nat.mul_comm]

/-- A number below the power of two does not change the quotient. -/
theorem xor_lt_of_lt {e m si ti : Nat} (bound : si < 2 ^ e * m)
    (low : ti < 2 ^ e) : si ^^^ ti < 2 ^ e * m := by
  rw [lt_mul_iff_div_lt] at bound ⊢
  rw [Nat.xor_div_two_pow, Nat.div_eq_of_lt low, Nat.xor_zero]
  exact bound

/-- A number with the quotient `1` exchanges neighbours, and the last of an odd
number of quotients has none. -/
theorem xor_lt_iff_of_one {e m si ti : Nat} (odd : m % 2 = 1)
    (bound : si < 2 ^ e * m) (one : ti / 2 ^ e = 1) :
    si ^^^ ti < 2 ^ e * m ↔ si < 2 ^ e * m - 2 ^ e := by
  have last : 2 ^ e * m - 2 ^ e = 2 ^ e * (m - 1) := by
    rw [Nat.mul_sub, Nat.mul_one]
  rw [last, lt_mul_iff_div_lt, lt_mul_iff_div_lt, Nat.xor_div_two_pow, one,
    xor_one]
  rw [lt_mul_iff_div_lt] at bound
  omega

/-- The first number whose remainder, combined with the number shifted by the
length of the modulus, is not a remainder. -/
def firstOutside (n : Nat) : Nat :=
  let low := Nat.gcd (2 ^ n.log2) n
  (low * 2 ^ n.log2 / n + 1) * n - low

/-- The combination of `firstOutside`. -/
def combined (n number : Nat) : Nat :=
  (number % n) ^^^ ((number / 2 ^ n.log2) % n)

section

variable {n : Nat}

/-- A number that is no power of two is an odd multiple of one. -/
theorem exists_odd_multiple (positive : 0 < n) (other : n ≠ 2 ^ n.log2) :
    ∃ e m, Nat.gcd (2 ^ n.log2) n = 2 ^ e ∧ n = 2 ^ e * m ∧
      m % 2 = 1 ∧ 3 ≤ m ∧ e < n.log2 := by
  obtain ⟨e, below, isGcd⟩ := (Nat.dvd_prime_pow Nat.prime_two).mp
    (Nat.gcd_dvd_left (2 ^ n.log2) n)
  obtain ⟨m, split⟩ : 2 ^ e ∣ n := by
    rw [← isGcd]
    exact Nat.gcd_dvd_right _ _
  have lower := Nat.log2_self_le (Nat.pos_iff_ne_zero.mp positive)
  have upper : n < 2 ^ (n.log2 + 1) := Nat.lt_log2_self
  generalize n.log2 = k at *
  have strict : e < k := by
    by_contra large
    have same : e = k := by omega
    rw [same] at split
    rw [pow_succ] at upper
    have small : m < 2 := by
      by_contra two
      have enough : 2 ^ k * 2 ≤ 2 ^ k * m := Nat.mul_le_mul_left _ (by omega)
      omega
    have one : m = 1 := by
      rcases (by omega : m = 0 ∨ m = 1) with zero | one
      · rw [zero, Nat.mul_zero] at split
        omega
      · exact one
    rw [one, Nat.mul_one] at split
    exact other split
  have odd : m % 2 = 1 := by
    by_contra even
    have half : m = 2 * (m / 2) := by omega
    have more : 2 ^ (e + 1) ∣ 2 ^ e := by
      rw [← isGcd]
      apply Nat.dvd_gcd
      · exact pow_dvd_pow 2 (by omega)
      · refine ⟨m / 2, ?_⟩
        rw [split, pow_succ, Nat.mul_assoc, ← half]
    have le := Nat.le_of_dvd (Nat.two_pow_pos e) more
    rw [pow_succ] at le
    have pos := Nat.two_pow_pos e
    omega
  refine ⟨e, m, isGcd, split, odd, ?_, strict⟩
  by_contra small
  have one : m = 1 := by omega
  rw [one, Nat.mul_one] at split
  have less : 2 ^ e < 2 ^ k := Nat.pow_lt_pow_right (by decide) strict
  omega

/-- The two sides of `firstOutside`. -/
theorem combined_spec (positive : 0 < n) (other : n ≠ 2 ^ n.log2) :
    (∀ number < firstOutside n, combined n number < n) ∧
      n ≤ combined n (firstOutside n) := by
  obtain ⟨e, m, isGcd, split, odd, three, strict⟩ :=
    exists_odd_multiple positive other
  have upper : n < 2 ^ (n.log2 + 1) := Nat.lt_log2_self
  have bounds : n < 2 * 2 ^ n.log2 := by
    rw [Nat.mul_comm, ← pow_succ]
    exact upper
  have lower := Nat.log2_self_le (Nat.pos_iff_ne_zero.mp positive)
  simp only [firstOutside, combined, isGcd]
  generalize n.log2 = k at *
  have powers : 0 < 2 ^ e := Nat.two_pow_pos e
  have large : 2 ^ e * 3 ≤ n := by
    rw [split]
    exact Nat.mul_le_mul_left _ three
  have less : n * (2 ^ e * 2 ^ k / n) ≤ 2 ^ e * 2 ^ k := Nat.mul_div_le _ _
  have more : 2 ^ e * 2 ^ k < n * (2 ^ e * 2 ^ k / n) + n :=
    Nat.lt_mul_div_succ _ positive
  -- The end lies at a multiple of the power, so it is a whole one further.
  have step : 2 ^ e * 2 ^ k + 2 ^ e ≤ n * (2 ^ e * 2 ^ k / n) + n := by
    generalize 2 ^ e * 2 ^ k / n = quotient at more ⊢
    have whole : n * quotient + n = 2 ^ e * (m * (quotient + 1)) := by
      rw [← Nat.mul_assoc, ← split, Nat.mul_add, Nat.mul_one]
    rw [whole] at more ⊢
    have next : 2 ^ k + 1 ≤ m * (quotient + 1) :=
      Nat.lt_of_mul_lt_mul_left more
    calc 2 ^ e * 2 ^ k + 2 ^ e = 2 ^ e * (2 ^ k + 1) := by
          rw [Nat.mul_add, Nat.mul_one]
      _ ≤ 2 ^ e * (m * (quotient + 1)) := Nat.mul_le_mul_left _ next
  have ending : (2 ^ e * 2 ^ k / n + 1) * n =
      n * (2 ^ e * 2 ^ k / n) + n := by
    rw [Nat.mul_comm, Nat.mul_add, Nat.mul_one]
  rw [ending]
  have single : e = 0 → 2 ^ e * 2 ^ k / n = 0 := by
    intro zero
    rw [zero, Nat.pow_zero, Nat.one_mul]
    exact Nat.div_eq_of_lt (by omega)
  have double : e ≠ 0 → 2 ≤ 2 ^ e := by
    intro nonzero
    exact Nat.le_self_pow nonzero 2
  generalize 2 ^ e * 2 ^ k / n = quotient at *
  -- From the first number that is shifted to the power of two on.
  have remainder : ∀ {number}, 2 ^ e * 2 ^ k ≤ number →
      number ≤ n * quotient + n - 2 ^ e →
      number % n = number - n * quotient ∧
        number / 2 ^ k % n / 2 ^ e = 1 := by
    intro number first last
    constructor
    · have apart : number = n * quotient + (number - n * quotient) := by omega
      rw [apart, Nat.mul_add_mod, Nat.mod_eq_of_lt (by omega)]
      omega
    · have atLeast : 2 ^ e ≤ number / 2 ^ k :=
        (Nat.le_div_iff_mul_le (Nat.two_pow_pos k)).mpr first
      have below : number / 2 ^ k < 2 * 2 ^ e := by
        rw [Nat.div_lt_iff_lt_mul (Nat.two_pow_pos k)]
        by_cases zero : e = 0
        · rw [single zero, Nat.mul_zero] at last
          rw [zero, Nat.pow_zero]
          omega
        · have two := double zero
          have enough : (2 ^ e + 2) * 2 ^ k ≤ 2 * 2 ^ e * 2 ^ k :=
            Nat.mul_le_mul_right _ (by omega)
          rw [Nat.add_mul] at enough
          omega
      rw [Nat.mod_eq_of_lt (by omega)]
      exact Nat.div_eq_of_lt_le (by omega) (by omega)
  constructor
  · intro number before
    rcases Nat.lt_or_ge number (2 ^ e * 2 ^ k) with early | late
    · have low : number / 2 ^ k < 2 ^ e :=
        (Nat.div_lt_iff_lt_mul (Nat.two_pow_pos k)).mpr early
      rw [Nat.mod_eq_of_lt (by omega : number / 2 ^ k < n)]
      have bound := Nat.mod_lt number positive
      rw [split] at bound ⊢
      exact xor_lt_of_lt bound low
    · obtain ⟨rest, one⟩ := remainder late (by omega)
      have bound := Nat.mod_lt number positive
      have inside := (@xor_lt_iff_of_one e m (number % n)
        (number / 2 ^ k % n) odd (by rw [← split]; exact bound) one).mpr
      rw [← split] at inside
      exact inside (by omega)
  · obtain ⟨rest, one⟩ := @remainder (n * quotient + n - 2 ^ e) (by omega)
      (Nat.le_refl _)
    have bound := Nat.mod_lt (n * quotient + n - 2 ^ e) positive
    have outside := (@xor_lt_iff_of_one e m
      ((n * quotient + n - 2 ^ e) % n)
      ((n * quotient + n - 2 ^ e) / 2 ^ k % n) odd
      (by rw [← split]; exact bound) one).mp
    rw [← split] at outside
    by_contra inside
    have wrong := outside (by omega)
    omega

end

end ChipletSniper.Library
