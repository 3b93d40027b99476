import Mathlib.Data.Int.Log
import Mathlib.Data.Rat.Floor
import Mathlib.Algebra.Order.Field.Power
import Mathlib.Tactic.FieldSimp
import Mathlib.Tactic.Linarith
import Mathlib.Tactic.Positivity
import Mathlib.Tactic.Ring

/-!
# Rounding to significant digits

A positive rational number is rounded to a number of significant digits in some
base, ties going to the even last digit.  In base 2 this is the rounding of a
floating-point format, up to its range of exponents; in base 10 it is that of a
decimal output with a fixed precision.
-/

namespace ChipletSniper.Library

/-- The nearest integer, and the even one of two. -/
def roundHalfEven (q : ℚ) : ℤ :=
  if q - ⌊q⌋ < 1 / 2 ∨ (q - ⌊q⌋ = 1 / 2 ∧ ⌊q⌋ % 2 = 0) then ⌊q⌋
  else ⌊q⌋ + 1

theorem roundHalfEven_intCast (z : ℤ) : roundHalfEven z = z := by
  unfold roundHalfEven
  rw [Int.floor_intCast, sub_self, if_pos (Or.inl (by positivity))]

theorem le_roundHalfEven {z : ℤ} {q : ℚ} (below : (z : ℚ) ≤ q) :
    z ≤ roundHalfEven q := by
  have floor : z ≤ ⌊q⌋ := Int.le_floor.mpr below
  unfold roundHalfEven
  split_ifs <;> omega

theorem roundHalfEven_le {z : ℤ} {q : ℚ} (above : q ≤ (z : ℚ)) :
    roundHalfEven q ≤ z := by
  rcases eq_or_lt_of_le above with rfl | less
  · exact le_of_eq (roundHalfEven_intCast z)
  · have floor : ⌊q⌋ < z := Int.floor_lt.mpr less
    unfold roundHalfEven
    split_ifs <;> omega

section Significant

variable (base digits : ℕ) (q : ℚ)

/-- The place of the last significant digit. -/
def lastPlace : ℤ :=
  Int.log base q - (digits - 1 : ℤ)

/-- The significant digits as an integer. -/
def significand : ℤ :=
  roundHalfEven (q / (base : ℚ) ^ lastPlace base digits q)

/-- The number with these digits. -/
def roundSig : ℚ :=
  significand base digits q * (base : ℚ) ^ lastPlace base digits q

/-- The number has no more than `digits` significant digits. -/
def Representable : Prop :=
  ∃ (m : ℕ) (e : ℤ), m < base ^ digits ∧ q = m * (base : ℚ) ^ e

variable {base digits q} (big : 1 < base)

include big

private theorem base_pos : (0 : ℚ) < base := by
  exact_mod_cast Nat.zero_lt_of_lt big

/-- The number measured in units of the last place. -/
theorem scaled_bounds (digits : Nat) (positive : 0 < q) :
    (base : ℚ) ^ (digits - 1 : ℤ) ≤ q / (base : ℚ) ^ lastPlace base digits q ∧
      q / (base : ℚ) ^ lastPlace base digits q < (base : ℚ) ^ (digits : ℤ) := by
  have unit : (0 : ℚ) < (base : ℚ) ^ lastPlace base digits q :=
    zpow_pos (base_pos big) _
  have nonzero : (base : ℚ) ≠ 0 := ne_of_gt (base_pos big)
  constructor
  · rw [le_div_iff₀ unit, ← zpow_add₀ nonzero]
    have place : (digits - 1 : ℤ) + lastPlace base digits q =
        Int.log base q := by
      unfold lastPlace
      ring
    rw [place]
    exact Int.zpow_log_le_self big positive
  · rw [div_lt_iff₀ unit, ← zpow_add₀ nonzero]
    have place : (digits : ℤ) + lastPlace base digits q =
        Int.log base q + 1 := by
      unfold lastPlace
      ring
    rw [place]
    exact Int.lt_zpow_succ_log_self big q

/-- The significand has the digits it should have, or it is the next power of
the base. -/
theorem significand_bounds (positive : 0 < q) (some : 1 ≤ digits) :
    (base : ℤ) ^ (digits - 1) ≤ significand base digits q ∧
      significand base digits q ≤ (base : ℤ) ^ digits := by
  obtain ⟨lower, upper⟩ := scaled_bounds big digits positive
  constructor
  · apply le_roundHalfEven
    have exponent : (digits - 1 : ℤ) = ((digits - 1 : ℕ) : ℤ) := by omega
    rw [exponent, zpow_natCast] at lower
    exact_mod_cast lower
  · apply roundHalfEven_le
    rw [zpow_natCast] at upper
    exact_mod_cast le_of_lt upper

/-- Rounding does not go beyond a number that stands on the grid. -/
theorem significand_of_representable (positive : 0 < q)
    (exact : Representable base digits q) :
    (significand base digits q : ℚ) =
      q / (base : ℚ) ^ lastPlace base digits q := by
  obtain ⟨m, e, small, value⟩ := exact
  have nonzero : (base : ℚ) ≠ 0 := ne_of_gt (base_pos big)
  have finer : lastPlace base digits q ≤ e := by
    by_contra coarser
    have upper : q < (base : ℚ) ^ (digits + e : ℤ) := by
      rw [zpow_add₀ nonzero, zpow_natCast, value]
      exact mul_lt_mul_of_pos_right (by exact_mod_cast small)
        (zpow_pos (base_pos big) e)
    have log : Int.log base q < digits + e :=
      (Int.lt_zpow_iff_log_lt big positive).mp upper
    unfold lastPlace at coarser
    omega
  have whole : q / (base : ℚ) ^ lastPlace base digits q =
      ((m * base ^ (e - lastPlace base digits q).toNat : ℕ) : ℤ) := by
    have shift : (e - lastPlace base digits q).toNat =
        e - lastPlace base digits q := by omega
    push_cast
    rw [← zpow_natCast, shift, zpow_sub₀ nonzero, value]
    ring
  unfold significand
  rw [whole, roundHalfEven_intCast]

theorem significand_pos (positive : 0 < q) (some : 1 ≤ digits) :
    0 < significand base digits q := by
  have lower := (significand_bounds big positive some).1
  have power : (0 : ℤ) < (base : ℤ) ^ (digits - 1) := by positivity
  omega

theorem roundSig_pos (positive : 0 < q) (some : 1 ≤ digits) :
    0 < roundSig base digits q :=
  mul_pos (by exact_mod_cast significand_pos big positive some)
    (zpow_pos (base_pos big) _)

/-- What rounding gives can be represented. -/
theorem roundSig_representable (positive : 0 < q) (some : 1 ≤ digits) :
    Representable base digits (roundSig base digits q) := by
  obtain ⟨m, significandIs⟩ :=
    Int.eq_ofNat_of_zero_le (le_of_lt (significand_pos big positive some))
  have upper := (significand_bounds big positive some).2
  rw [significandIs] at upper
  have within : m ≤ base ^ digits := by exact_mod_cast upper
  unfold roundSig
  rw [significandIs]
  rcases lt_or_eq_of_le within with less | full
  · exact ⟨m, _, less, by push_cast; rfl⟩
  · -- rounding up to the next power of the base
    refine ⟨1, digits + lastPlace base digits q, ?_, ?_⟩
    · exact Nat.one_lt_pow (by omega) big
    · rw [zpow_add₀ (ne_of_gt (base_pos big)), full]
      push_cast
      rw [one_mul, zpow_natCast]

/-- Exactly the numbers that can be represented are kept. -/
theorem roundSig_eq_self_iff (positive : 0 < q) (some : 1 ≤ digits) :
    roundSig base digits q = q ↔ Representable base digits q := by
  constructor
  · intro kept
    have exact := roundSig_representable big positive some
    rwa [kept] at exact
  · intro exact
    unfold roundSig
    rw [significand_of_representable big positive exact,
      div_mul_cancel₀ _ (ne_of_gt (zpow_pos (base_pos big) _))]

/-- The significand of a number that can be represented has exactly the digits
it should have. -/
theorem significand_lt (positive : 0 < q) (exact : Representable base digits q) :
    significand base digits q < (base : ℤ) ^ digits := by
  have upper := (scaled_bounds big digits positive).2
  rw [← significand_of_representable big positive exact, zpow_natCast] at upper
  exact_mod_cast upper

end Significant

/-- A natural number can be represented in the base if it has no more digits
than that, zeros at the end apart. -/
theorem representable_natCast_iff {base digits n : ℕ} (big : 1 < base) :
    Representable base digits (n : ℚ) ↔
      ∃ m k : ℕ, m < base ^ digits ∧ n = m * base ^ k := by
  constructor
  · rintro ⟨m, e, small, value⟩
    by_cases whole : 0 ≤ e
    · obtain ⟨k, rfl⟩ := Int.eq_ofNat_of_zero_le whole
      refine ⟨m, k, small, ?_⟩
      rw [zpow_natCast] at value
      exact_mod_cast value
    · refine ⟨n, 0, lt_of_le_of_lt ?_ small, by simp⟩
      have fraction : (base : ℚ) ^ e ≤ 1 :=
        zpow_le_one_of_nonpos₀ (by exact_mod_cast le_of_lt big) (by omega)
      have below : (n : ℚ) ≤ m := by
        rw [value]
        exact mul_le_of_le_one_right (by positivity) fraction
      exact_mod_cast below
  · rintro ⟨m, k, small, value⟩
    refine ⟨m, k, small, ?_⟩
    rw [zpow_natCast, value]
    push_cast
    rfl

end ChipletSniper.Library
