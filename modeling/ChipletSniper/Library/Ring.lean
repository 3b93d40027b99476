import Mathlib.Algebra.Order.Ring.Int
import Mathlib.Tactic.SplitIfs

/-!
# Walking on a ring

The positions of a ring are the numbers below `n`.  A walker that looks at the
difference to its goal goes straight if the difference is at most half the
ring and through the end of the ring otherwise.  It decides anew at every
step; while it approaches the end of the ring the difference grows, and on
crossing the end it changes its sign.
-/

namespace ChipletSniper.Library

section Ring

variable {n x y d : ℤ}

/-- The next position, around the end of the ring. -/
def ringNext (n x : ℤ) : ℤ :=
  if x + 1 = n then 0 else x + 1

/-- The previous position. -/
def ringPrevious (n x : ℤ) : ℤ :=
  if x - 1 = -1 then n - 1 else x - 1

/-- The number of steps of the shorter way. -/
def ringDistance (n x d : ℤ) : Nat :=
  min (d - x).natAbs (n - (d - x).natAbs).toNat

/-- A step of the walker from `x` on the way to `d`: whether it raises the
position, the lane it takes and the position after it.  The lane is `0` if the
goal is the smaller number and `1` if it is the larger one. -/
inductive RingMove (n d x : ℤ) : Bool → Nat → ℤ → Prop
  | lower : d < x → (x - d) * 2 ≤ n →
      RingMove n d x false 0 (ringPrevious n x)
  | raise : x < d → (d - x) * 2 ≤ n →
      RingMove n d x true 1 (ringNext n x)
  | raiseAround : d < x → n < (x - d) * 2 →
      RingMove n d x true 0 (ringNext n x)
  | lowerAround : x < d → n < (d - x) * 2 →
      RingMove n d x false 1 (ringPrevious n x)

/-- A number for every lane of every link of the ring.  The lane that a walker
takes before the end of the ring comes first. -/
def ringRank (n x : ℤ) (raises : Bool) (lane : Nat) : ℤ :=
  if raises then (if lane = 0 then x else n + x)
  else (if lane = 1 then n - 1 - x else 2 * n - 1 - x)

/-- The shorter way touches the last position. -/
def TouchesEnd (n x d : ℤ) : Prop :=
  x = n - 1 ∨ d = n - 1 ∨ n < ((d - x).natAbs : ℤ) * 2

/-- The walker takes lane `0` all the way. -/
def LowLane (n x d : ℤ) : Prop :=
  d ≤ x ∧ ((x - d) * 2 ≤ n ∨ d = 0)

theorem ringNext_inside (inside : 0 ≤ x ∧ x < n) :
    0 ≤ ringNext n x ∧ ringNext n x < n := by
  unfold ringNext
  split <;> omega

theorem ringPrevious_inside (inside : 0 ≤ x ∧ x < n) :
    0 ≤ ringPrevious n x ∧ ringPrevious n x < n := by
  unfold ringPrevious
  split <;> omega

theorem ringPrevious_ringNext (inside : 0 ≤ x ∧ x < n) :
    ringPrevious n (ringNext n x) = x := by
  unfold ringPrevious ringNext
  split_ifs <;> omega

theorem ringNext_ringPrevious (inside : 0 ≤ x ∧ x < n) :
    ringNext n (ringPrevious n x) = x := by
  unfold ringPrevious ringNext
  split_ifs <;> omega

theorem ringDistance_self (positive : 0 < n) : ringDistance n d d = 0 := by
  unfold ringDistance
  omega

/-- The distance as it is usually written. -/
theorem ringDistance_cast (source : 0 ≤ x ∧ x < n)
    (target : 0 ≤ d ∧ d < n) :
    (ringDistance n x d : ℤ) = min |d - x| (n - |d - x|) := by
  unfold ringDistance
  rw [Int.abs_eq_natAbs]
  omega

namespace RingMove

variable {raises raises' : Bool} {lane lane' : Nat} {z : ℤ}

theorem inside (move : RingMove n d x raises lane y) (source : 0 ≤ x ∧ x < n) :
    0 ≤ y ∧ y < n := by
  cases move with
  | lower | lowerAround => exact ringPrevious_inside source
  | raise | raiseAround => exact ringNext_inside source

theorem apart (move : RingMove n d x raises lane y) : x ≠ d := by
  cases move <;> omega

/-- Every step is one on the shorter way. -/
theorem closer (move : RingMove n d x raises lane y)
    (source : 0 ≤ x ∧ x < n) (target : 0 ≤ d ∧ d < n) :
    ringDistance n y d + 1 = ringDistance n x d := by
  unfold ringDistance
  cases move with
  | lower below half | lowerAround below half =>
      unfold ringPrevious
      split <;> omega
  | raise above half | raiseAround above half =>
      unfold ringNext
      split <;> omega

theorem rank_bounds (move : RingMove n d x raises lane y)
    (source : 0 ≤ x ∧ x < n) :
    0 ≤ ringRank n x raises lane ∧ ringRank n x raises lane < 2 * n := by
  cases move <;> simp only [ringRank, if_true, if_false,
    Bool.false_eq_true, zero_ne_one, one_ne_zero] <;> omega

/-- The next step of the same walk ranks higher. -/
theorem rank_lt (move : RingMove n d x raises lane y)
    (next : RingMove n d y raises' lane' z) (target : 0 ≤ d ∧ d < n) :
    ringRank n x raises lane < ringRank n y raises' lane' := by
  cases move <;> cases next <;>
    simp only [ringRank, ringNext, ringPrevious, reduceIte, zero_ne_one,
      one_ne_zero, Bool.false_eq_true] at * <;>
    split_ifs at * <;> omega

/-- A step from another position does not change whether the last position is
touched. -/
theorem touchesEnd_iff (move : RingMove n d x raises lane y)
    (source : 0 ≤ x ∧ x < n) (target : 0 ≤ d ∧ d < n) (inner : x ≠ n - 1) :
    TouchesEnd n y d ↔ TouchesEnd n x d := by
  unfold TouchesEnd
  cases move with
  | lower below half | lowerAround below half =>
      unfold ringPrevious
      split <;> omega
  | raise above half | raiseAround above half =>
      unfold ringNext
      split <;> omega

/-- The walker stays on lane `0` if it takes it now and further on. -/
theorem lowLane_iff (move : RingMove n d x raises lane y)
    (target : 0 ≤ d ∧ d < n) :
    LowLane n x d ↔ lane = 0 ∧ LowLane n y d := by
  unfold LowLane
  cases move with
  | lower below half | lowerAround below half =>
      unfold ringPrevious
      split <;> omega
  | raise above half | raiseAround above half =>
      unfold ringNext
      split <;> omega

theorem lane_lt (move : RingMove n d x raises lane y) : lane < 2 := by
  cases move <;> omega

end RingMove

theorem lowLane_self (positive : 0 < n) : LowLane n d d := by
  unfold LowLane
  omega

theorem exists_ringMove (apart : x ≠ d) :
    ∃ raises lane y, RingMove n d x raises lane y := by
  rcases lt_or_gt_of_ne apart with above | below
  · by_cases half : (d - x) * 2 ≤ n
    · exact ⟨_, _, _, .raise above half⟩
    · exact ⟨_, _, _, .lowerAround above (not_le.mp half)⟩
  · by_cases half : (x - d) * 2 ≤ n
    · exact ⟨_, _, _, .lower below half⟩
    · exact ⟨_, _, _, .raiseAround below (not_le.mp half)⟩

end Ring

end ChipletSniper.Library
