import ChipletSniper.Library.Runs
import ChipletSniper.Queueing.HistoryList

/-!
# The list of free intervals over a run

The list stays in order while no request is put into an interval that is too
short for it, the end of all times stays free, and the delays that are
averaged add up within 64 bits.
-/

namespace ChipletSniper.Queueing

open Library (Along Increasing map_eq_ok)
open SubsecondTime

structure Request where
  pktTime : Nat
  processingTime : Nat

/-- `sum -=` of a full window. -/
def MovingArithmeticMean.subtractions (mean : MovingArithmeticMean) :
    List (Nat × Nat) :=
  if mean.currWindowSize = mean.maxWindowSize then
    [(mean.sum, mean.numList.getD mean.front 0)]
  else
    []

namespace HistoryList

/-- `computeQueueDelay`, without its result. -/
def step (queue : HistoryList) (request : Request) :
    Except QueueError HistoryList :=
  (queue.computeQueueDelay request.pktTime request.processingTime).map
    Prod.snd

/-- The differences of times that are taken for an interval. -/
def intervalSubtractions (pktTime processingTime : Nat)
    (interval : Interval) : List (Nat × Nat) :=
  if interval.1 ≤ pktTime then
    [(pktTime, interval.1), (interval.2, plus pktTime processingTime)]
  else
    [(interval.1, pktTime), (interval.2, plus interval.1 processingTime)]

/-- The differences of times that one call takes. -/
def subtractions (queue : HistoryList) (request : Request) :
    List (Nat × Nat) :=
  if queue.usesAnalyticalModel request.pktTime request.processingTime then
    []
  else
    (match queue.taking request.pktTime request.processingTime with
      | none => []
      | some interval =>
          intervalSubtractions request.pktTime request.processingTime
            interval) ++
    queue.averageDelay.subtractions

/-- The list is one of free intervals up to the end of all times. -/
structure IsFreeList (queue : HistoryList) : Prop where
  increasing : Increasing queue.freeIntervalList
  short : queue.freeIntervalList.length ≤ queue.maxFreeIntervalListSize
  endless : ∃ interval,
    queue.freeIntervalList.getLast? = some interval ∧ interval.2 = 2 ^ 63

/-- The call returns, no difference of times is negative, and the list is one
of free intervals again. -/
def Sound (queue : HistoryList) (request : Request) : Prop :=
  (∃ delay next,
    queue.computeQueueDelay request.pktTime request.processingTime =
      .ok (delay, next) ∧ next.IsFreeList) ∧
  ∀ subtraction ∈ queue.subtractions request, subtraction.2 ≤ subtraction.1

/-- What a request has to meet. -/
structure Meets (queue : HistoryList) (request : Request) : Prop where
  averaged :
    queue.usesAnalyticalModel request.pktTime request.processingTime = true →
      queue.averageDelay.currWindowSize ≠ 0
  fits :
    queue.usesAnalyticalModel request.pktTime request.processingTime =
        false →
      ∀ interval,
        queue.taking request.pktTime request.processingTime =
            some interval →
          startIn request.pktTime interval + request.processingTime ≤
            interval.2
  room :
    queue.usesAnalyticalModel request.pktTime request.processingTime =
        false →
      ∀ interval,
        queue.taking request.pktTime request.processingTime =
            some interval →
          queue.freeIntervalList.getLast? = some interval →
            startIn request.pktTime interval + request.processingTime +
              queue.minProcessingTime ≤ interval.2
  sums :
    queue.usesAnalyticalModel request.pktTime request.processingTime =
        false →
      queue.averageDelay.currWindowSize = queue.averageDelay.maxWindowSize →
        queue.averageDelay.window.sum < 2 ^ 64

/-- What holds between two calls. -/
structure Kept (queue : HistoryList) : Prop extends IsFreeList queue where
  positive : 0 < queue.maxFreeIntervalListSize
  summed : queue.averageDelay.Summed

theorem Kept.of_initial (minProcessingTime : Nat) {maxListSize : Nat}
    (positive : 0 < maxListSize) (analyticalModelEnabled : Bool) :
    (initial minProcessingTime maxListSize analyticalModelEnabled).Kept where
  increasing := .singleton (Nat.zero_le _)
  short := positive
  endless := ⟨(0, 2 ^ 63), rfl, rfl⟩
  positive := positive
  summed := .of_initial positive

variable {queue : HistoryList} {request : Request}

theorem IsFreeList.filled (list : queue.IsFreeList) :
    queue.freeIntervalList ≠ [] := by
  obtain ⟨interval, last, _⟩ := list.endless
  intro empty
  rw [empty] at last
  cases last

/-- The last interval takes every request that the others do not take. -/
theorem IsFreeList.exists_takes (list : queue.IsFreeList)
    (inTime : request.pktTime + request.processingTime < 2 ^ 63) :
    ∃ interval ∈ queue.freeIntervalList,
      Takes request.pktTime request.processingTime interval := by
  obtain ⟨interval, last, stop⟩ := list.endless
  refine ⟨interval, List.mem_of_getLast? last, ?_⟩
  rcases Nat.lt_or_ge request.pktTime interval.1 with late | early
  · exact Or.inr late
  · refine Or.inl ⟨early, ?_⟩
    rw [plus_eq (by omega), stop]
    exact inTime.le

theorem IsFreeList.bounded (list : queue.IsFreeList) {interval : Interval}
    (member : interval ∈ queue.freeIntervalList) : interval.2 ≤ 2 ^ 63 := by
  obtain ⟨_, last, stop⟩ := list.endless
  exact stop ▸ list.increasing.le_last last member

/-! ## One call -/

variable {before after : List Interval} {interval : Interval}

/-- The end of all times stays free, and the last interval begins where the
request is over at the latest. -/
theorem pieces_last {last : Interval}
    (split : queue.freeIntervalList = before ++ interval :: after)
    (final : queue.freeIntervalList.getLast? = some last)
    (placed : Placed request.pktTime request.processingTime interval)
    (room : queue.freeIntervalList.getLast? = some interval →
      startIn request.pktTime interval + request.processingTime +
        queue.minProcessingTime ≤ interval.2) :
    ∃ first,
      (before ++
        queue.pieces request.pktTime request.processingTime interval ++
        after).getLast? = some (first, last.2) ∧
      first ≤ startIn request.pktTime last + request.processingTime := by
  rw [split] at final room
  rcases after with _ | ⟨next, rest⟩
  · rw [List.getLast?_append, List.getLast?_singleton, Option.some_or] at final
    cases final
    have wide := room (by
      rw [List.getLast?_append, List.getLast?_singleton, Option.some_or])
    refine ⟨startIn request.pktTime interval + request.processingTime, ?_,
      le_refl _⟩
    rw [List.append_nil, List.getLast?_append, placed.pieces_getLast? wide,
      Option.some_or]
  · refine ⟨last.1, ?_, (Nat.le_max_right _ _).trans (Nat.le_add_right _ _)⟩
    rw [List.getLast?_append, List.getLast?_cons_cons] at final
    rw [List.getLast?_append]
    exact final

/-- A call puts a list of free intervals in the place of another. -/
theorem Kept.replace (kept : queue.Kept)
    (split : queue.freeIntervalList = before ++ interval :: after)
    (placed : Placed request.pktTime request.processingTime interval)
    (room : queue.freeIntervalList.getLast? = some interval →
      startIn request.pktTime interval + request.processingTime +
        queue.minProcessingTime ≤ interval.2) {mean : MovingArithmeticMean}
    (summed : mean.Summed) :
    Kept { queue with
      freeIntervalList := queue.trim
        (before ++
          queue.pieces request.pktTime request.processingTime interval ++
          after)
      averageDelay := mean } where
  increasing :=
    ((split ▸ kept.increasing).replace placed.pieces_increasing
      fun _ => placed.pieces_inside).sublist (queue.trim_sublist _)
  short := by
    have short := kept.short
    have pieces := placed.pieces_length queue
    rw [split, List.length_append, List.length_cons] at short
    refine trim_length ?_
    rw [List.length_append, List.length_append]
    omega
  endless := by
    obtain ⟨last, final, stop⟩ := kept.endless
    obtain ⟨first, ends, _⟩ := pieces_last split final placed room
    exact ⟨(first, last.2), (trim_getLast? kept.positive _).trans ends, stop⟩
  positive := kept.positive
  summed := summed

/-- No difference of times is negative. -/
theorem Placed.subtractions {pktTime processingTime : Nat}
    (placed : Placed pktTime processingTime interval) :
    ∀ subtraction ∈ intervalSubtractions pktTime processingTime interval,
      subtraction.2 ≤ subtraction.1 := by
  obtain ⟨proper, bounded, inTime, fits⟩ := placed
  unfold startIn at fits
  intro subtraction member
  unfold intervalSubtractions at member
  split at member
  next early =>
      rw [Nat.max_eq_left early] at fits
      rw [plus_eq (by omega)] at member
      rcases List.mem_pair.mp member with rfl | rfl
      · exact early
      · exact fits
  next late =>
      have below := (not_le.mp late).le
      rw [Nat.max_eq_right below] at fits
      rw [plus_eq (by omega)] at member
      rcases List.mem_pair.mp member with rfl | rfl
      · exact below
      · exact fits

theorem Kept.averageDelay_subtractions (kept : queue.Kept)
    (small : queue.averageDelay.currWindowSize =
        queue.averageDelay.maxWindowSize →
      queue.averageDelay.window.sum < 2 ^ 64) :
    ∀ subtraction ∈ queue.averageDelay.subtractions,
      subtraction.2 ≤ subtraction.1 := by
  intro subtraction member
  unfold MovingArithmeticMean.subtractions at member
  split at member
  next full =>
      rw [List.mem_singleton.mp member]
      exact kept.summed.front_le_sum (full ▸ kept.summed.positive.ne')
        (small full)
  next => cases member

/-- The interval that a request takes, and the call for it. -/
theorem Kept.call (kept : queue.Kept)
    (fits : ∀ interval,
      queue.taking request.pktTime request.processingTime = some interval →
        startIn request.pktTime interval + request.processingTime ≤
          interval.2)
    (inTime : request.pktTime + request.processingTime < 2 ^ 63)
    (history : queue.usesAnalyticalModel request.pktTime
      request.processingTime = false) :
    ∃ before interval after,
      queue.freeIntervalList = before ++ interval :: after ∧
      queue.taking request.pktTime request.processingTime = some interval ∧
      Placed request.pktTime request.processingTime interval ∧
      queue.computeQueueDelay request.pktTime request.processingTime =
        .ok (startIn request.pktTime interval - request.pktTime,
          { queue with
            freeIntervalList := queue.trim
              (before ++ queue.pieces request.pktTime request.processingTime
                interval ++ after)
            averageDelay := queue.averageDelay.update
              (startIn request.pktTime interval - request.pktTime) }) := by
  obtain ⟨before, interval, after, split, taken, _, loop⟩ :=
    findInterval_split queue
      (kept.toIsFreeList.exists_takes inTime)
  have member : interval ∈ queue.freeIntervalList := by
    rw [split]
    exact List.mem_append_right _ List.mem_cons_self
  have placed : Placed request.pktTime request.processingTime interval :=
    ⟨kept.increasing.proper interval member,
      kept.toIsFreeList.bounded member, inTime,
      fits interval taken⟩
  exact ⟨before, interval, after, split, taken, placed,
    computeQueueDelay_eq kept.short history split loop placed⟩

/-- One call. -/
theorem Kept.sound (kept : queue.Kept) (meets : queue.Meets request)
    (inTime : request.pktTime + request.processingTime < 2 ^ 63) :
    queue.Sound request ∧
      ∀ next, queue.step request = .ok next → next.Kept := by
  rcases used : queue.usesAnalyticalModel request.pktTime
    request.processingTime with _ | _
  · obtain ⟨before, interval, after, split, taken, placed, call⟩ :=
      kept.call (meets.fits used) inTime used
    have bounded := placed.bounded
    have fits := placed.fits
    have replaced := kept.replace split placed (meets.room used interval taken)
      (kept.summed.update (show startIn request.pktTime interval -
        request.pktTime < 2 ^ 64 by omega))
    refine ⟨⟨⟨_, _, call, replaced.toIsFreeList⟩, ?_⟩, ?_⟩
    · intro subtraction member
      unfold subtractions at member
      rw [used, if_neg Bool.false_ne_true, taken] at member
      rcases List.mem_append.mp member with member | member
      · exact placed.subtractions subtraction member
      · exact kept.averageDelay_subtractions (meets.sums used) subtraction
          member
    · intro next stepped
      unfold step at stepped
      rw [call] at stepped
      cases stepped
      exact replaced
  · have call : queue.computeQueueDelay request.pktTime
        request.processingTime =
          .ok (queue.averageDelay.sum / queue.averageDelay.currWindowSize,
            queue) := by
      unfold computeQueueDelay
      rw [if_neg kept.toIsFreeList.filled, used, if_pos rfl,
        MovingArithmeticMean.compute, if_neg (meets.averaged used)]
      rfl
    refine ⟨⟨⟨_, _, call, kept.toIsFreeList⟩, ?_⟩, ?_⟩
    · intro subtraction member
      unfold subtractions at member
      rw [used, if_pos rfl] at member
      cases member
    · intro next stepped
      unfold step at stepped
      rw [call] at stepped
      cases stepped
      exact kept

/-- Over a run whose requests meet their conditions, the list stays one of
free intervals, no difference of times is negative and no call stops. -/
theorem free_list_kept (minProcessingTime : Nat) {maxListSize : Nat}
    (positive : 0 < maxListSize) (analyticalModelEnabled : Bool)
    {requests : List Request}
    (inTime : ∀ request ∈ requests,
      request.pktTime + request.processingTime < 2 ^ 63)
    (meets : Along step Meets requests
      (initial minProcessingTime maxListSize analyticalModelEnabled)) :
    Along step Sound requests
      (initial minProcessingTime maxListSize analyticalModelEnabled) :=
  Along.induction Kept
    (fun request member _ kept meets =>
      kept.sound meets (inTime request member))
    meets (.of_initial minProcessingTime positive analyticalModelEnabled)

/-- Two requests side by side. -/
theorem free_list_kept_twice :
    Along step Sound [⟨20, 10⟩, ⟨50, 10⟩] (initial 10 3 false) := by
  refine free_list_kept 10 (by decide) false (by decide)
    ⟨⟨fun used => absurd used (by decide), fun _ interval taken => ?_,
      fun _ interval taken _ => ?_, fun _ full => absurd full (by decide)⟩,
      fun next stepped => ?_⟩
  · cases taken
    decide
  · cases taken
    decide
  · cases stepped
    refine ⟨⟨fun used => absurd used (by decide), fun _ interval taken => ?_,
      fun _ interval taken _ => ?_, fun _ full => absurd full (by decide)⟩,
      fun _ _ => trivial⟩
    · cases taken
      decide
    · cases taken
      decide

/-- The third request waits for an interval that is over before it is
served. -/
theorem short_interval_wraps :
    ¬ Along step Sound [⟨20, 10⟩, ⟨50, 10⟩, ⟨25, 30⟩]
      (initial 10 3 false) := by
  intro along
  have third := ((along.2 _ rfl).2 _ rfl).1
  exact absurd (third.2 (50, 60) (by decide)) (by decide)

end HistoryList

end ChipletSniper.Queueing
