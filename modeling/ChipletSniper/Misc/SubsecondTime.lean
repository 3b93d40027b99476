import Mathlib.Algebra.Order.Ring.Int
import Mathlib.Tactic.Ring

/-!
# Times and cycle counts

`SubsecondTime` counts femtoseconds in an unsigned number of 64 bits.
`divideRounded` adds half a period and one more before it divides, so it rounds
up one femtosecond too early.
-/

namespace ChipletSniper.Misc

/-- `SubsecondTime`, in femtoseconds. -/
abbrev SubsecondTime := UInt64

/-- `SubsecondTime::divideRounded`. -/
def divideRounded (lhs rhs : SubsecondTime) : UInt64 :=
  (lhs + (rhs / 2 + 1)) / rhs

/-- `ComponentTime`. -/
structure ComponentTime where
  period : SubsecondTime
  time : SubsecondTime := 0

namespace ComponentTime

def addCycleLatency (component : ComponentTime) (cycles : UInt64) :
    ComponentTime :=
  { component with time := component.time + component.period * cycles }

def getCycleCount (component : ComponentTime) : UInt64 :=
  divideRounded component.time component.period

end ComponentTime

/-- No whole number of periods is nearer to the time. -/
def Nearest (time period count : UInt64) : Prop :=
  2 * |(period.toNat * count.toNat : ℤ) - time.toNat| ≤ period.toNat

/-! ## The rounding -/

/-- The quotient grows by one from the remainder `(period - 1) / 2` on. -/
theorem rounded_quotient (time : Nat) {period : Nat} (positive : 0 < period) :
    (time + (period / 2 + 1)) / period =
      time / period + if (period - 1) / 2 ≤ time % period then 1 else 0 := by
  have below := Nat.mod_lt time positive
  have split : time + (period / 2 + 1) =
      time % period + (period / 2 + 1) + period * (time / period) := by
    have whole := Nat.mod_add_div time period
    omega
  rw [split, Nat.add_mul_div_left _ _ positive, Nat.add_comm]
  congr 1
  split
  next up =>
    exact Nat.div_eq_of_lt_le (by omega) (by omega)
  next down => exact Nat.div_eq_of_lt (by omega)

section

variable {time period : SubsecondTime}

theorem toNat_divideRounded (nonzero : period ≠ 0)
    (room : time.toNat + period.toNat < 2 ^ 64) :
    (divideRounded time period).toNat =
      time.toNat / period.toNat +
        if (period.toNat - 1) / 2 ≤ time.toNat % period.toNat then 1 else 0 := by
  have positive : 0 < period.toNat :=
    Nat.pos_of_ne_zero fun zero => nonzero (UInt64.toNat_inj.mp zero)
  rw [← rounded_quotient _ positive]
  unfold divideRounded
  have half : (period / 2 + 1).toNat = period.toNat / 2 + 1 := by
    rw [UInt64.toNat_add, UInt64.toNat_div]
    exact Nat.mod_eq_of_lt (by
      change period.toNat / 2 + 1 < 2 ^ 64
      omega)
  rw [UInt64.toNat_div, UInt64.toNat_add, half, Nat.mod_eq_of_lt (by omega)]

/-- The rounding is right except at the largest remainder below the middle. -/
theorem nearest_iff (nonzero : period ≠ 0)
    (room : time.toNat + period.toNat < 2 ^ 64) :
    Nearest time period (divideRounded time period) ↔
      time.toNat % period.toNat ≠ (period.toNat - 1) / 2 := by
  have positive : 0 < period.toNat :=
    Nat.pos_of_ne_zero fun zero => nonzero (UInt64.toNat_inj.mp zero)
  have below := Nat.mod_lt time.toNat positive
  have whole := Nat.mod_add_div time.toNat period.toNat
  unfold Nearest
  rw [toNat_divideRounded nonzero room]
  generalize time.toNat / period.toNat = quotient at whole ⊢
  generalize time.toNat % period.toNat = remainder at below whole ⊢
  have time_eq : (time.toNat : ℤ) = period.toNat * quotient + remainder := by
    rw [← whole]
    push_cast
    exact add_comm _ _
  split
  next up =>
    have past : (period.toNat * ↑(quotient + 1) : ℤ) - time.toNat =
        (period.toNat : ℤ) - remainder := by
      rw [time_eq]
      push_cast
      ring
    rw [past, abs_of_nonneg (by omega)]
    omega
  next down =>
    have short : (period.toNat * ↑(quotient + 0) : ℤ) - time.toNat =
        -(remainder : ℤ) := by
      rw [time_eq, Nat.add_zero]
      ring
    rw [short, abs_neg, abs_of_nonneg (by omega)]
    omega

end

/-! ## Counting cycles -/

theorem time_addCycleLatency (calls : List UInt64) (component : ComponentTime)
    (room : component.time.toNat +
      component.period.toNat * (calls.map UInt64.toNat).sum < 2 ^ 64) :
    (calls.foldl ComponentTime.addCycleLatency component).time.toNat =
      component.time.toNat +
        component.period.toNat * (calls.map UInt64.toNat).sum ∧
    (calls.foldl ComponentTime.addCycleLatency component).period =
      component.period := by
  induction calls generalizing component with
  | nil => exact ⟨(Nat.add_zero _).symm, rfl⟩
  | cons cycles rest ih =>
      rw [List.map_cons, List.sum_cons, Nat.mul_add] at room ⊢
      have added : (component.addCycleLatency cycles).time.toNat =
          component.time.toNat + component.period.toNat * cycles.toNat := by
        change (component.time + component.period * cycles).toNat = _
        rw [UInt64.toNat_add, UInt64.toNat_mul, Nat.add_mod_mod]
        exact Nat.mod_eq_of_lt (by omega)
      obtain ⟨same, period⟩ :=
        ih (component.addCycleLatency cycles) (by
          rw [added]
          change _ + component.period.toNat * _ < _
          omega)
      rw [List.foldl_cons]
      refine ⟨?_, period⟩
      rw [same, added, Nat.add_assoc]
      rfl

/-- The times that are rounded wrongly, and the periods for which the cycles
that were added are not counted. -/
theorem cycles_round_iff (period : SubsecondTime) (nonzero : period ≠ 0) :
    (∀ time : SubsecondTime, time.toNat + period.toNat < 2 ^ 64 →
      (Nearest time period (divideRounded time period) ↔
        time.toNat % period.toNat ≠ (period.toNat - 1) / 2)) ∧
    ∀ calls : List UInt64,
      period.toNat * (calls.map UInt64.toNat).sum + period.toNat < 2 ^ 64 →
      ((calls.foldl ComponentTime.addCycleLatency
          { period }).getCycleCount.toNat = (calls.map UInt64.toNat).sum ↔
        3 ≤ period.toNat) := by
  have positive : 0 < period.toNat :=
    Nat.pos_of_ne_zero fun zero => nonzero (UInt64.toNat_inj.mp zero)
  refine ⟨fun time room => nearest_iff nonzero room, fun calls room => ?_⟩
  obtain ⟨total, same⟩ := time_addCycleLatency calls { period } (by
    change 0 + period.toNat * _ < _
    omega)
  rw [show ((0 : UInt64).toNat) = 0 from rfl, Nat.zero_add] at total
  unfold ComponentTime.getCycleCount
  rw [same, toNat_divideRounded nonzero (by rw [total]; exact room), total,
    Nat.mul_mod_right, Nat.mul_div_cancel_left _ positive]
  split <;> omega

/-- Two times, one of which is rounded wrongly, and the cycles of two calls. -/
theorem cycles_round_iff_nanosecond :
    Nearest 1500000 1000000 (divideRounded 1500000 1000000) ∧
      ¬ Nearest 1499999 1000000 (divideRounded 1499999 1000000) ∧
      (([3, 4].foldl ComponentTime.addCycleLatency
        { period := 1000000 }).getCycleCount.toNat = 7) := by
  have rounds := cycles_round_iff 1000000 (by decide)
  refine ⟨(rounds.1 1500000 (by decide)).mpr (by decide), fun nearest => ?_,
    (rounds.2 [3, 4] (by decide)).mpr (by decide)⟩
  exact absurd ((rounds.1 1499999 (by decide)).mp nearest) (by decide)

/-- At 2 GHz a time just below half a cycle is counted as a whole one. -/
theorem counts_cycle_early :
    ¬ Nearest 249999 500000 (divideRounded 249999 500000) := by
  unfold Nearest
  decide

end ChipletSniper.Misc
