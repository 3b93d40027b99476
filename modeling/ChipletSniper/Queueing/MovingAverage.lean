import ChipletSniper.Library.RingBuffer
import Mathlib.Algebra.Order.Group.Nat

/-!
# The average of the last numbers

The numbers are kept in a ring, beside their sum.
-/

namespace ChipletSniper.Queueing

/-! ## Times: femtoseconds in unsigned numbers of 64 bits -/

namespace SubsecondTime

/-- `operator+=`. -/
def plus (first second : Nat) : Nat :=
  (first + second) % 2 ^ 64

/-- `operator-=`. -/
def minus (first second : Nat) : Nat :=
  (first + (2 ^ 64 - second)) % 2 ^ 64

def maxTime : Nat :=
  2 ^ 64 - 1

theorem plus_eq {first second : Nat}
    (small : first + second < 2 ^ 64) :
    plus first second = first + second :=
  Nat.mod_eq_of_lt small

theorem minus_eq {first second : Nat} (small : first < 2 ^ 64)
    (below : second ≤ first) :
    minus first second = first - second := by
  unfold minus
  omega

/-- A number taken off a sum again, whatever the sum has carried out. -/
theorem plus_minus_left {first second third : Nat}
    (small : first < 2 ^ 64) :
    plus (minus ((first + second) % 2 ^ 64) first) third =
      (second + third) % 2 ^ 64 := by
  unfold plus minus
  omega

end SubsecondTime

open Library (length_ringContents mod_turn ringContents ringContents_pop
  ringContents_push)
open SubsecondTime

/-- Why a call stops. -/
inductive QueueError where
  | emptyList
  | listTooLong
  | intervalNotFound
  /-- The average of an empty window is a division by zero. -/
  | emptyWindow
  deriving DecidableEq, Repr

/-- `MovingArithmeticMean`. The window is a ring of `maxWindowSize + 1`
places. -/
structure MovingArithmeticMean where
  maxWindowSize : Nat
  numList : List Nat
  front : Nat
  back : Nat
  sum : Nat

namespace MovingArithmeticMean

variable (mean : MovingArithmeticMean)

/-- `m_curr_window_back - m_curr_window_front`. -/
def currWindowSize : Nat :=
  if mean.front ≤ mean.back then mean.back - mean.front
  else mean.maxWindowSize + 1 - mean.front + mean.back

def addToWindow (nextNum : Nat) : MovingArithmeticMean :=
  let back := (mean.back + 1) % (mean.maxWindowSize + 1)
  { mean with
    numList := mean.numList.set mean.back nextNum
    back := back
    front :=
      if back = mean.front then (mean.front + 1) % (mean.maxWindowSize + 1)
      else mean.front }

def update (nextNum : Nat) : MovingArithmeticMean :=
  let sum :=
    if mean.currWindowSize = mean.maxWindowSize then
      minus mean.sum (mean.numList.getD mean.front 0)
    else
      mean.sum
  { mean with sum := plus sum nextNum }.addToWindow nextNum

def compute : Except QueueError Nat :=
  if mean.currWindowSize = 0 then
    .error .emptyWindow
  else
    .ok (mean.sum / mean.currWindowSize)

def initial (maxWindowSize : Nat) : MovingArithmeticMean where
  maxWindowSize := maxWindowSize
  numList := List.replicate (maxWindowSize + 1) 0
  front := 0
  back := 0
  sum := 0

/-! ## The window -/

/-- The numbers that the mean is taken of, the oldest one first. -/
def window : List Nat :=
  ringContents (fun index => mean.numList.getD index 0)
    (mean.maxWindowSize + 1) mean.front mean.currWindowSize

/-- The ring is in order. -/
structure InRing : Prop where
  positive : 0 < mean.maxWindowSize
  places : mean.numList.length = mean.maxWindowSize + 1
  front_le : mean.front ≤ mean.maxWindowSize
  back_le : mean.back ≤ mean.maxWindowSize

variable {mean}

theorem InRing.size_le (ring : mean.InRing) :
    mean.currWindowSize ≤ mean.maxWindowSize := by
  have := ring.front_le
  have := ring.back_le
  unfold currWindowSize
  split <;> omega

theorem InRing.back_eq (ring : mean.InRing) :
    mean.back =
      (mean.front + mean.currWindowSize) % (mean.maxWindowSize + 1) := by
  have frontInside := ring.front_le
  have backInside := ring.back_le
  unfold currWindowSize
  split
  next => rw [mod_turn (by omega)]; split <;> omega
  next => rw [mod_turn (by omega)]; split <;> omega

/-- The ring is full when the next place is the front. -/
theorem InRing.full_iff (ring : mean.InRing) :
    (mean.back + 1) % (mean.maxWindowSize + 1) = mean.front ↔
      mean.currWindowSize = mean.maxWindowSize := by
  have := ring.front_le
  have := ring.back_le
  have := ring.positive
  unfold currWindowSize
  rw [mod_turn (by omega)]
  split <;> split <;> omega

theorem InRing.addToWindow (ring : mean.InRing) (nextNum : Nat) :
    (mean.addToWindow nextNum).InRing where
  positive := ring.positive
  places := (List.length_set).trans ring.places
  front_le := by
    dsimp only [MovingArithmeticMean.addToWindow]
    split
    · exact Nat.lt_succ_iff.mp (Nat.mod_lt _ (Nat.succ_pos _))
    · exact ring.front_le
  back_le := Nat.lt_succ_iff.mp (Nat.mod_lt _ (Nat.succ_pos _))

theorem InRing.getD_set (ring : mean.InRing) (nextNum : Nat) :
    (fun index => (mean.numList.set mean.back nextNum).getD index 0) =
      Function.update (fun index => mean.numList.getD index 0)
        ((mean.front + mean.currWindowSize) % (mean.maxWindowSize + 1))
        nextNum := by
  rw [← ring.back_eq]
  funext index
  by_cases same : index = mean.back
  · rw [same, Function.update_self, List.getD_eq_getElem?_getD,
      List.getElem?_set_self]
    · rfl
    · rw [ring.places]
      exact Nat.lt_succ_iff.mpr ring.back_le
  · rw [Function.update_of_ne same, List.getD_eq_getElem?_getD,
      List.getElem?_set_ne (Ne.symm same), ← List.getD_eq_getElem?_getD]

theorem InRing.size_addToWindow (ring : mean.InRing)
    (nextNum : Nat) :
    (mean.addToWindow nextNum).currWindowSize =
      if mean.currWindowSize = mean.maxWindowSize then mean.maxWindowSize
      else mean.currWindowSize + 1 := by
  have frontInside := ring.front_le
  have backInside := ring.back_le
  have positive := ring.positive
  by_cases full : mean.currWindowSize = mean.maxWindowSize
  · have turned := ring.full_iff.mpr full
    rw [if_pos full]
    dsimp only [currWindowSize, MovingArithmeticMean.addToWindow]
    rw [if_pos turned, turned, mod_turn (by omega)]
    split <;> split <;> omega
  · have turned := mt ring.full_iff.mp full
    rw [if_neg full]
    dsimp only [currWindowSize, MovingArithmeticMean.addToWindow]
    rw [if_neg turned]
    rw [mod_turn (by omega)] at turned ⊢
    split_ifs at turned ⊢ <;> omega

/-- A number joins the window, and the oldest one leaves it when it is
full. -/
theorem InRing.window_addToWindow (ring : mean.InRing)
    (nextNum : Nat) :
    (mean.addToWindow nextNum).window =
      (if mean.currWindowSize = mean.maxWindowSize then mean.window.tail
        else mean.window) ++ [nextNum] := by
  have pushed := ringContents_push (fun index => mean.numList.getD index 0)
    mean.front (Nat.lt_succ_iff.mpr ring.size_le) nextNum
  rw [← ring.getD_set] at pushed
  have size := ring.size_addToWindow nextNum
  by_cases full : mean.currWindowSize = mean.maxWindowSize
  · have turned := ring.full_iff.mpr full
    have front : (mean.addToWindow nextNum).front =
        (mean.front + 1) % (mean.maxWindowSize + 1) := if_pos turned
    have filled : mean.window ≠ [] := fun empty =>
      ring.positive.ne (full ▸ length_ringContents.symm.trans
        (congrArg List.length empty)).symm
    rw [ringContents_pop] at pushed
    rw [if_pos full, ← List.tail_append_of_ne_nil filled]
    refine Eq.trans ?_ (congrArg List.tail pushed)
    rw [if_pos full] at size
    unfold window
    rw [size, front, List.tail_cons, full]
    rfl
  · have front : (mean.addToWindow nextNum).front = mean.front :=
      if_neg (mt ring.full_iff.mp full)
    rw [if_neg full] at size ⊢
    refine Eq.trans ?_ pushed
    unfold window
    rw [size, front]
    rfl

/-- The window in front of a number that joins it. -/
def remaining (mean : MovingArithmeticMean) : List Nat :=
  if mean.currWindowSize = mean.maxWindowSize then mean.window.tail
  else mean.window

theorem InRing.window_eq_cons (ring : mean.InRing)
    (filled : mean.currWindowSize ≠ 0) :
    mean.window = mean.numList.getD mean.front 0 :: mean.window.tail := by
  obtain ⟨size, whole⟩ := Nat.exists_eq_succ_of_ne_zero filled
  unfold window
  rw [whole, ringContents_pop, List.tail_cons,
    Nat.mod_eq_of_lt (Nat.lt_succ_iff.mpr ring.front_le)]

/-- The sum is that of the window, as far as 64 bits hold it. -/
structure Summed (mean : MovingArithmeticMean) : Prop extends
    InRing mean where
  bounded : ∀ number ∈ mean.window, number < 2 ^ 64
  total : mean.sum = mean.window.sum % 2 ^ 64

theorem Summed.of_initial {size : Nat} (positive : 0 < size) :
    (initial size).Summed where
  positive := positive
  places := List.length_replicate
  front_le := Nat.zero_le _
  back_le := Nat.zero_le _
  bounded := fun _ member => absurd member List.not_mem_nil
  total := rfl

theorem Summed.window_update (summed : mean.Summed) (nextNum : Nat) :
    (mean.update nextNum).window = mean.remaining ++ [nextNum] :=
  @InRing.window_addToWindow
    { mean with sum := (mean.update nextNum).sum }
    ⟨summed.positive, summed.places, summed.front_le, summed.back_le⟩ nextNum

/-- The oldest number of a full window leaves the sum without a borrow. -/
theorem Summed.front_le_sum (summed : mean.Summed)
    (filled : mean.currWindowSize ≠ 0) (small : mean.window.sum < 2 ^ 64) :
    mean.numList.getD mean.front 0 ≤ mean.sum := by
  rw [summed.total, Nat.mod_eq_of_lt small,
    summed.window_eq_cons filled, List.sum_cons]
  exact Nat.le_add_right _ _

theorem Summed.sum_update (summed : mean.Summed) (nextNum : Nat) :
    (mean.update nextNum).sum =
      (mean.remaining.sum + nextNum) % 2 ^ 64 := by
  have total := summed.total
  have bounded := summed.bounded
  dsimp only [update, addToWindow, remaining]
  split
  next full =>
      have cons := summed.window_eq_cons (full ▸ summed.positive.ne')
      have below := bounded (mean.numList.getD mean.front 0)
        (cons ▸ List.mem_cons_self)
      rw [cons, List.sum_cons] at total
      rw [total]
      exact plus_minus_left below
  next =>
      rw [total]
      exact Nat.mod_add_mod _ _ _

theorem Summed.update (summed : mean.Summed) {nextNum : Nat}
    (small : nextNum < 2 ^ 64) : (mean.update nextNum).Summed where
  toInRing := @InRing.addToWindow
    { mean with sum := (mean.update nextNum).sum }
    ⟨summed.positive, summed.places, summed.front_le, summed.back_le⟩ nextNum
  bounded := by
    intro number member
    rw [summed.window_update] at member
    rcases List.mem_append.mp member with member | member
    · refine summed.bounded number ?_
      unfold remaining at member
      split at member
      · exact List.mem_of_mem_tail member
      · exact member
    · rw [List.mem_singleton.mp member]
      exact small
  total := by
    rw [summed.window_update, summed.sum_update, List.sum_append,
      List.sum_singleton]

end MovingArithmeticMean

end ChipletSniper.Queueing
