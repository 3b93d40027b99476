import ChipletSniper.Library.Intervals
import ChipletSniper.Queueing.MovingAverage

/-!
# The history list queue model

A resource whose free time is a list of intervals. A request takes the first
interval that it fits into, or the start of the first one after it.
-/

namespace ChipletSniper.Queueing

open Library (Apart Inside Increasing)
open SubsecondTime

/-- A free interval: its first instant and the end. -/
abbrev Interval := Nat × Nat

/-- `QueueModelHistoryList`, without its statistics. -/
structure HistoryList where
  minProcessingTime : Nat
  maxFreeIntervalListSize : Nat
  analyticalModelEnabled : Bool
  freeIntervalList : List Interval
  averageDelay : MovingArithmeticMean

namespace HistoryList

variable (queue : HistoryList) (pktTime processingTime : Nat)

/-- What is left of an interval that the request fits into. -/
def around (interval : Interval) : List Interval :=
  (if queue.minProcessingTime ≤ minus pktTime interval.1 then
    [(interval.1, pktTime)] else []) ++
  if queue.minProcessingTime ≤
      minus interval.2 (plus pktTime processingTime) then
    [(plus pktTime processingTime, interval.2)] else []

/-- What is left of an interval whose start the request takes. -/
def behind (interval : Interval) : List Interval :=
  if queue.minProcessingTime ≤
      minus interval.2 (plus interval.1 processingTime) then
    [(plus interval.1 processingTime, interval.2)] else []

/-- The loop over the free intervals: the delay and the intervals that are
left. -/
def findInterval : List Interval → Option (Nat × List Interval)
  | [] => none
  | interval :: rest =>
      if interval.1 ≤ pktTime ∧ plus pktTime processingTime ≤ interval.2 then
        some (0, queue.around pktTime processingTime interval ++ rest)
      else if pktTime < interval.1 then
        some (minus interval.1 pktTime,
          queue.behind processingTime interval ++ rest)
      else
        (findInterval rest).map fun (delay, left) => (delay, interval :: left)

def computeUsingHistoryList :
    Except QueueError (Nat × List Interval) :=
  if queue.maxFreeIntervalListSize < queue.freeIntervalList.length then
    .error .listTooLong
  else
    match queue.findInterval pktTime processingTime
        queue.freeIntervalList with
    | none => .error .intervalNotFound
    | some (delay, left) =>
        if delay = maxTime then
          .error .intervalNotFound
        else if queue.maxFreeIntervalListSize < left.length then
          .ok (delay, left.tail)
        else
          .ok (delay, left)

/-- The request is older than every free interval, and the analytical model is
used. -/
def usesAnalyticalModel : Bool :=
  match queue.freeIntervalList with
  | [] => false
  | oldest :: _ =>
      queue.analyticalModelEnabled &&
        decide (plus pktTime processingTime ≤ oldest.1)

def computeQueueDelay : Except QueueError (Nat × HistoryList) :=
  if queue.freeIntervalList = [] then
    .error .emptyList
  else if queue.usesAnalyticalModel pktTime processingTime then do
    let delay ← queue.averageDelay.compute
    return (delay, queue)
  else do
    let (delay, left) ← queue.computeUsingHistoryList pktTime processingTime
    return (delay,
      { queue with
        freeIntervalList := left
        averageDelay := queue.averageDelay.update delay })

/-- The constructor. -/
def initial (minProcessingTime : Nat) (maxListSize : Nat)
    (analyticalModelEnabled : Bool) : HistoryList where
  minProcessingTime := minProcessingTime
  maxFreeIntervalListSize := maxListSize
  analyticalModelEnabled := analyticalModelEnabled
  freeIntervalList := [(0, 2 ^ 63)]
  averageDelay := .initial maxListSize

/-! ## The interval that a request takes -/

/-- The loop stops at the interval. -/
def Takes (interval : Interval) : Prop :=
  interval.1 ≤ pktTime ∧ plus pktTime processingTime ≤ interval.2 ∨
    pktTime < interval.1

instance : Decidable (Takes pktTime processingTime interval) :=
  inferInstanceAs (Decidable (_ ∨ _))

/-- The first free interval at which the loop stops. -/
def taking : Option Interval :=
  queue.freeIntervalList.find? fun interval =>
    decide (Takes pktTime processingTime interval)

/-- What is left of the interval that the request takes. -/
def pieces (interval : Interval) : List Interval :=
  if interval.1 ≤ pktTime then queue.around pktTime processingTime interval
  else queue.behind processingTime interval

/-- How long the request waits for the interval. -/
def delayTo (interval : Interval) : Nat :=
  if interval.1 ≤ pktTime then 0 else minus interval.1 pktTime

variable {queue pktTime processingTime}

theorem findInterval_eq_none : ∀ {intervals : List Interval},
    (∀ interval ∈ intervals, ¬ Takes pktTime processingTime interval) →
      queue.findInterval pktTime processingTime intervals = none
  | [], _ => rfl
  | interval :: rest, stuck => by
      have here := not_or.mp (stuck interval List.mem_cons_self)
      rw [findInterval, if_neg here.1, if_neg here.2,
        findInterval_eq_none fun other member =>
          stuck other (List.mem_cons_of_mem _ member)]
      rfl

variable (queue) in
/-- The loop in one equation. -/
theorem findInterval_split : ∀ {intervals : List Interval},
    (∃ interval ∈ intervals, Takes pktTime processingTime interval) →
      ∃ before interval after,
        intervals = before ++ interval :: after ∧
        (intervals.find? fun interval =>
          decide (Takes pktTime processingTime interval)) = some interval ∧
        Takes pktTime processingTime interval ∧
        queue.findInterval pktTime processingTime intervals =
          some (delayTo pktTime interval,
            before ++ queue.pieces pktTime processingTime interval ++ after)
  | [], found => by
      obtain ⟨_, member, _⟩ := found
      cases member
  | interval :: rest, found => by
      by_cases here : Takes pktTime processingTime interval
      · refine ⟨[], interval, rest, rfl, ?_, here, ?_⟩
        · rw [List.find?_cons, decide_eq_true here]
        · rw [findInterval, pieces, delayTo, List.nil_append]
          by_cases early : interval.1 ≤ pktTime
          · have fits := here.resolve_right (not_lt.mpr early)
            rw [if_pos fits, if_pos early, if_pos early]
          · rw [if_neg fun fits => early fits.1, if_pos (not_le.mp early),
              if_neg early, if_neg early]
      · obtain ⟨other, member, takes⟩ := found
        have later : other ∈ rest := by
          rcases List.mem_cons.mp member with rfl | later
          · exact absurd takes here
          · exact later
        obtain ⟨before, taken, after, split, first, takes, loop⟩ :=
          findInterval_split ⟨other, later, takes⟩
        refine ⟨interval :: before, taken, after, ?_, ?_, takes, ?_⟩
        · rw [split, List.cons_append]
        · rw [List.find?_cons, decide_eq_false here, first]
        · have passed := not_or.mp here
          rw [findInterval, if_neg passed.1, if_neg passed.2, loop]
          rfl

/-! ## The pieces of an interval -/

/-- When the request is served that takes the interval. -/
def startIn (pktTime : Nat) (interval : Interval) : Nat :=
  max pktTime interval.1

/-- The interval is long enough for the request, before the end of all
times. -/
structure Placed (pktTime processingTime : Nat) (interval : Interval) :
    Prop where
  proper : interval.1 ≤ interval.2
  bounded : interval.2 ≤ 2 ^ 63
  inTime : pktTime + processingTime < 2 ^ 63
  fits : startIn pktTime interval + processingTime ≤ interval.2

namespace Placed

variable {pktTime processingTime : Nat} {interval : Interval}

theorem delay_eq (placed : Placed pktTime processingTime interval) :
    delayTo pktTime interval = startIn pktTime interval - pktTime := by
  unfold delayTo startIn
  split
  next early => rw [Nat.max_eq_left early, Nat.sub_self]
  next late =>
      have below := (not_le.mp late).le
      have proper := placed.proper
      have bounded := placed.bounded
      rw [Nat.max_eq_right below]
      exact minus_eq (lt_of_le_of_lt (proper.trans bounded) (by decide)) below

theorem delay_ne (placed : Placed pktTime processingTime interval) :
    delayTo pktTime interval ≠ maxTime := by
  have fits := placed.fits
  have bounded := placed.bounded
  rw [placed.delay_eq]
  unfold maxTime
  omega

/-- Without borrows, the pieces on the two sides of the request. -/
theorem pieces_eq (queue : HistoryList)
    (placed : Placed pktTime processingTime interval) :
    queue.pieces pktTime processingTime interval =
      (if interval.1 + queue.minProcessingTime ≤ pktTime then
        [(interval.1, pktTime)] else []) ++
      if startIn pktTime interval + processingTime +
          queue.minProcessingTime ≤ interval.2 then
        [(startIn pktTime interval + processingTime, interval.2)]
      else [] := by
  obtain ⟨proper, bounded, inTime, fits⟩ := placed
  unfold startIn at fits
  unfold pieces around behind startIn
  split
  next early =>
      rw [Nat.max_eq_left early] at fits ⊢
      rw [plus_eq (by omega), minus_eq (by omega) early,
        minus_eq (by omega) fits]
      congr 2
      · exact propext (by omega)
      · exact propext (by omega)
  next late =>
      rw [Nat.max_eq_right (by omega)] at fits ⊢
      rw [plus_eq (by omega), minus_eq (by omega) fits,
        if_neg (show ¬ interval.1 + queue.minProcessingTime ≤ pktTime by
          omega), List.nil_append]
      congr 1
      exact propext (by omega)

variable {queue : HistoryList} {piece : Interval}

theorem mem_pieces (placed : Placed pktTime processingTime interval)
    (member : piece ∈ queue.pieces pktTime processingTime interval) :
    piece = (interval.1, pktTime) ∧
        interval.1 + queue.minProcessingTime ≤ pktTime ∨
      piece = (startIn pktTime interval + processingTime, interval.2) ∧
        startIn pktTime interval + processingTime +
          queue.minProcessingTime ≤ interval.2 := by
  rw [placed.pieces_eq] at member
  rcases List.mem_append.mp member with member | member
  · split at member
    next wide => exact Or.inl ⟨List.mem_singleton.mp member, wide⟩
    next => cases member
  · split at member
    next wide => exact Or.inr ⟨List.mem_singleton.mp member, wide⟩
    next => cases member

theorem inside (placed : Placed pktTime processingTime interval) :
    Inside (startIn pktTime interval,
      startIn pktTime interval + processingTime) interval :=
  ⟨Nat.le_max_right _ _, placed.fits⟩

theorem pieces_inside (placed : Placed pktTime processingTime interval)
    (member : piece ∈ queue.pieces pktTime processingTime interval) :
    Inside piece interval := by
  have fits := placed.fits
  rcases placed.mem_pieces member with ⟨rfl, wide⟩ | ⟨rfl, wide⟩
  · exact ⟨le_refl _, ((Nat.le_max_left pktTime interval.1).trans
      (Nat.le_add_right _ _)).trans fits⟩
  · exact ⟨placed.inside.1.trans (Nat.le_add_right _ _), le_refl _⟩

theorem pieces_clear (placed : Placed pktTime processingTime interval)
    (member : piece ∈ queue.pieces pktTime processingTime interval) :
    Apart (startIn pktTime interval,
      startIn pktTime interval + processingTime) piece := by
  rcases placed.mem_pieces member with ⟨rfl, _⟩ | ⟨rfl, _⟩
  · exact Or.inr (Nat.le_max_left pktTime interval.1)
  · exact Or.inl (le_refl _)

/-- No piece is shorter than the smallest request. -/
theorem pieces_long (placed : Placed pktTime processingTime interval)
    (member : piece ∈ queue.pieces pktTime processingTime interval) :
    piece.1 + queue.minProcessingTime ≤ piece.2 := by
  rcases placed.mem_pieces member with ⟨rfl, wide⟩ | ⟨rfl, wide⟩
  · exact wide
  · exact wide

theorem pieces_increasing (placed : Placed pktTime processingTime interval) :
    Increasing (queue.pieces pktTime processingTime interval) := by
  have fits := placed.fits
  have start : pktTime ≤ startIn pktTime interval := Nat.le_max_left _ _
  rw [placed.pieces_eq]
  split
  next wide =>
      have early : interval.1 ≤ pktTime :=
        (Nat.le_add_right _ _).trans wide
      split
      next => exact .pair early (start.trans (Nat.le_add_right _ _)) fits
      next => exact .singleton early
  next =>
      split
      next => exact .singleton fits
      next => exact .nil

theorem pieces_length (queue : HistoryList)
    (placed : Placed pktTime processingTime interval) :
    (queue.pieces pktTime processingTime interval).length ≤ 2 := by
  rw [placed.pieces_eq, List.length_append]
  split <;> split <;> simp

theorem pieces_getLast? (placed : Placed pktTime processingTime interval)
    (room : startIn pktTime interval + processingTime +
      queue.minProcessingTime ≤ interval.2) :
    (queue.pieces pktTime processingTime interval).getLast? =
      some (startIn pktTime interval + processingTime, interval.2) := by
  rw [placed.pieces_eq, if_pos room, List.getLast?_concat]

end Placed

/-! ## One call -/

/-- The list may have grown by one interval. -/
def trim (left : List Interval) : List Interval :=
  if queue.maxFreeIntervalListSize < left.length then left.tail else left

theorem trim_sublist (left : List Interval) :
    (queue.trim left).Sublist left := by
  unfold trim
  split
  · exact List.tail_sublist left
  · exact List.Sublist.refl left

theorem trim_length {left : List Interval}
    (short : left.length ≤ queue.maxFreeIntervalListSize + 1) :
    (queue.trim left).length ≤ queue.maxFreeIntervalListSize := by
  unfold trim
  split
  next long =>
      rw [List.length_tail]
      omega
  next fine => exact not_lt.mp fine

/-- The last interval stays. -/
theorem trim_getLast? (positive : 0 < queue.maxFreeIntervalListSize)
    (left : List Interval) :
    (queue.trim left).getLast? = left.getLast? := by
  unfold trim
  split
  next long =>
      rcases left with _ | ⟨oldest, _ | ⟨second, rest⟩⟩
      · rfl
      · exact absurd long (not_lt.mpr positive)
      · exact List.getLast?_cons_cons.symm
  next => rfl

variable {before after : List Interval} {interval : Interval}

theorem computeQueueDelay_eq
    (short : queue.freeIntervalList.length ≤ queue.maxFreeIntervalListSize)
    (history : queue.usesAnalyticalModel pktTime processingTime = false)
    (split : queue.freeIntervalList = before ++ interval :: after)
    (loop : queue.findInterval pktTime processingTime
      queue.freeIntervalList =
        some (delayTo pktTime interval,
          before ++ queue.pieces pktTime processingTime interval ++ after))
    (placed : Placed pktTime processingTime interval) :
    queue.computeQueueDelay pktTime processingTime =
      .ok (startIn pktTime interval - pktTime,
        { queue with
          freeIntervalList := queue.trim
            (before ++ queue.pieces pktTime processingTime interval ++ after)
          averageDelay := queue.averageDelay.update
            (startIn pktTime interval - pktTime) }) := by
  have filled : queue.freeIntervalList ≠ [] := by
    rw [split]
    exact List.append_ne_nil_of_right_ne_nil _ (List.cons_ne_nil _ _)
  unfold computeQueueDelay computeUsingHistoryList
  rw [if_neg filled, history, if_neg Bool.false_ne_true,
    if_neg (not_lt.mpr short), loop]
  dsimp only
  rw [if_neg placed.delay_ne, ← placed.delay_eq]
  unfold trim
  split
  · rfl
  · rfl

end HistoryList

end ChipletSniper.Queueing
