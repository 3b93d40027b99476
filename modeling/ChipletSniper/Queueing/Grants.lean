import ChipletSniper.Queueing.FreeIntervals

/-!
# The service intervals that are granted

Without the analytical model a request is served in time that was free, and
what is taken from the free intervals covers the time it is served in.
-/

namespace ChipletSniper.Queueing

open Library (Apart Booked bind_eq_ok map_eq_ok)
open SubsecondTime

/-- `[pkt_time + delay, pkt_time + delay + processing_time)`. -/
def Request.service (request : Request) (delay : Nat) : Interval :=
  (plus request.pktTime delay,
    plus (plus request.pktTime delay) request.processingTime)

/-- A request of the domain: no longer than the smallest interval, and over
in time. -/
structure Request.Proper (request : Request) (minProcessingTime : Nat) :
    Prop where
  short : request.processingTime ≤ minProcessingTime
  inTime : request.pktTime + request.processingTime + minProcessingTime <
    2 ^ 63

namespace HistoryList

/-- The service intervals of a run of calls. -/
def grants (queue : HistoryList) :
    List Request → Except QueueError (List Interval)
  | [] => .ok []
  | request :: rest =>
      (queue.computeQueueDelay request.pktTime request.processingTime).bind
        fun (delay, next) =>
          (next.grants rest).map (request.service delay :: ·)

/-- Between two calls: the free intervals, none of which is too short, and
what has been granted. -/
structure Serving (queue : HistoryList) (taken : List Interval) : Prop where
  disabled : queue.analyticalModelEnabled = false
  booked : Booked queue.freeIntervalList taken
  long : ∀ interval ∈ queue.freeIntervalList,
    interval.1 + queue.minProcessingTime ≤ interval.2
  bounded : ∀ interval ∈ queue.freeIntervalList, interval.2 ≤ 2 ^ 63

variable {queue next : HistoryList} {request : Request}
variable {taken before after : List Interval} {interval : Interval}

theorem usesAnalyticalModel_disabled
    (disabled : queue.analyticalModelEnabled = false)
    (pktTime processingTime : Nat) :
    queue.usesAnalyticalModel pktTime processingTime = false := by
  unfold usesAnalyticalModel
  split
  · rfl
  · rw [disabled, Bool.false_and]

theorem takes_of_taking {pktTime processingTime : Nat}
    (taken : queue.taking pktTime processingTime = some interval) :
    Takes pktTime processingTime interval := by
  unfold taking at taken
  exact of_decide_eq_true (List.find?_some taken :)

/-- An interval that takes a request is long enough for it. -/
theorem Serving.placed (serving : queue.Serving taken)
    (proper : request.Proper queue.minProcessingTime)
    (member : interval ∈ queue.freeIntervalList)
    (takes : Takes request.pktTime request.processingTime interval) :
    Placed request.pktTime request.processingTime interval := by
  have long := serving.long interval member
  have short := proper.short
  have inTime := proper.inTime
  refine ⟨serving.booked.increasing.proper interval member,
    serving.bounded interval member, by omega, ?_⟩
  rcases takes with ⟨early, fits⟩ | late
  · rw [plus_eq (by omega)] at fits
    rw [startIn, Nat.max_eq_left early]
    exact fits
  · rw [startIn, Nat.max_eq_right late.le]
    omega

/-- A call that returns has found an interval. -/
theorem exists_takes_of_ok {delay : Nat}
    (history : queue.usesAnalyticalModel request.pktTime
      request.processingTime = false)
    (called : queue.computeQueueDelay request.pktTime
      request.processingTime = .ok (delay, next)) :
    queue.freeIntervalList.length ≤ queue.maxFreeIntervalListSize ∧
    ∃ interval ∈ queue.freeIntervalList,
      Takes request.pktTime request.processingTime interval := by
  unfold computeQueueDelay computeUsingHistoryList at called
  rw [history, if_neg Bool.false_ne_true] at called
  split at called
  next => cases called
  next =>
    split at called
    next => cases called
    next short =>
        refine ⟨not_lt.mp short, by_contra fun stuck => ?_⟩
        rw [findInterval_eq_none fun interval member takes =>
          stuck ⟨interval, member, takes⟩] at called
        cases called

/-- Every free interval was there before, or is a piece of the one that the
request has taken. -/
theorem mem_left {pktTime processingTime : Nat} {other : Interval}
    (split : queue.freeIntervalList = before ++ interval :: after)
    (member : other ∈ queue.trim
      (before ++ queue.pieces pktTime processingTime interval ++ after)) :
    other ∈ queue.freeIntervalList ∨
      other ∈ queue.pieces pktTime processingTime interval := by
  rw [split]
  rcases List.mem_append.mp ((trim_sublist _).subset member) with front | back
  · exact (List.mem_append.mp front).imp_left (List.mem_append_left _)
  · exact Or.inl (List.mem_append_right _ (List.mem_cons_of_mem _ back))

/-- A call that returns books its service interval. -/
theorem Serving.call (serving : queue.Serving taken)
    (proper : request.Proper queue.minProcessingTime) {delay : Nat}
    (called : queue.computeQueueDelay request.pktTime
      request.processingTime = .ok (delay, next)) :
    next.Serving (request.service delay :: taken) ∧
      next.minProcessingTime = queue.minProcessingTime ∧
      request.pktTime ≤ (request.service delay).1 ∧
      (request.service delay).2 =
        (request.service delay).1 + request.processingTime := by
  have history := usesAnalyticalModel_disabled serving.disabled
    request.pktTime request.processingTime
  obtain ⟨short, found⟩ := exists_takes_of_ok history called
  obtain ⟨before, interval, after, split, _, takes, loop⟩ :=
    findInterval_split queue found
  have member : interval ∈ queue.freeIntervalList := by
    rw [split]
    exact List.mem_append_right _ List.mem_cons_self
  have placed := serving.placed proper member takes
  rw [computeQueueDelay_eq short history split loop placed] at called
  cases called
  have fits := placed.fits
  have bounded := placed.bounded
  have waits : request.pktTime ≤ startIn request.pktTime interval :=
    Nat.le_max_left _ _
  have service : request.service
      (startIn request.pktTime interval - request.pktTime) =
        (startIn request.pktTime interval,
          startIn request.pktTime interval + request.processingTime) := by
    unfold Request.service
    rw [Nat.add_sub_cancel' waits |> (plus_eq (by omega)).trans,
      plus_eq (by omega)]
  rw [service]
  refine ⟨⟨serving.disabled, ?_, fun other free => ?_,
    fun other free => ?_⟩, rfl, waits, rfl⟩
  · exact ((split ▸ serving.booked).book placed.pieces_increasing
      (fun _ => placed.pieces_inside) placed.inside
      fun _ => placed.pieces_clear).forget (trim_sublist _)
  · rcases mem_left split free with kept | piece
    · exact serving.long other kept
    · exact placed.pieces_long piece
  · rcases mem_left split free with kept | piece
    · exact serving.bounded other kept
    · exact (placed.pieces_inside piece).2.trans bounded

/-! ## Runs -/

/-- What is granted lies apart from what has been granted before. -/
theorem Serving.grants {requests : List Request} :
    ∀ {queue : HistoryList} {taken granted : List Interval},
      queue.Serving taken →
      (∀ request ∈ requests, request.Proper queue.minProcessingTime) →
      queue.grants requests = .ok granted →
      granted.Pairwise Apart ∧
        (∀ grant ∈ granted, ∀ booking ∈ taken, Apart grant booking) ∧
        List.Forall₂ (fun request grant => request.pktTime ≤ grant.1 ∧
          grant.2 = grant.1 + request.processingTime) requests granted := by
  induction requests with
  | nil =>
      intro queue taken granted serving proper run
      cases run
      exact ⟨List.Pairwise.nil,
        fun _ member => absurd member List.not_mem_nil, List.Forall₂.nil⟩
  | cons request rest ih =>
      intro queue taken granted serving proper run
      obtain ⟨⟨delay, next⟩, called, later⟩ := bind_eq_ok.mp run
      obtain ⟨others, following, rfl⟩ := map_eq_ok.mp later
      obtain ⟨booked, same, waits, stop⟩ :=
        serving.call (proper request List.mem_cons_self) called
      obtain ⟨single, outside, each⟩ := ih booked
        (fun other member =>
          same ▸ proper other (List.mem_cons_of_mem _ member)) following
      refine ⟨List.pairwise_cons.mpr ⟨fun grant member =>
        (outside grant member _ List.mem_cons_self).symm, single⟩,
        fun grant member booking earlier => ?_,
        List.Forall₂.cons ⟨waits, stop⟩ each⟩
      rcases List.mem_cons.mp member with rfl | member
      · exact (List.pairwise_cons.mp booked.booked.single).1 booking earlier
      · exact outside grant member booking
          (List.mem_cons_of_mem _ earlier)

/-- As long as all requests together are over in time, every call returns. -/
theorem Kept.grants {requests : List Request} :
    ∀ {queue : HistoryList} {taken : List Interval} {last : Interval},
      queue.Kept → queue.Serving taken →
      (∀ request ∈ requests, request.Proper queue.minProcessingTime) →
      (∀ request ∈ requests, request.pktTime +
        (requests.map Request.processingTime).sum +
          queue.minProcessingTime ≤ 2 ^ 63) →
      queue.freeIntervalList.getLast? = some last → last.2 = 2 ^ 63 →
      last.1 + (requests.map Request.processingTime).sum +
        queue.minProcessingTime ≤ 2 ^ 63 →
      ∃ granted, queue.grants requests = .ok granted := by
  induction requests with
  | nil => exact fun _ _ _ _ _ _ _ => ⟨[], rfl⟩
  | cons request rest ih =>
      intro queue taken last kept serving proper inTime final stop room
      have requestProper := proper request List.mem_cons_self
      have requestInTime := inTime request List.mem_cons_self
      rw [List.map_cons, List.sum_cons] at room requestInTime
      have together : startIn request.pktTime last +
          request.processingTime + (rest.map Request.processingTime).sum +
            queue.minProcessingTime ≤ 2 ^ 63 := by
        unfold startIn
        omega
      obtain ⟨before, interval, after, split, _, placed, call⟩ :=
        kept.call
          (fun interval taken => (serving.placed requestProper
            (List.mem_of_find?_eq_some taken)
            (takes_of_taking taken)).fits)
          (requestProper.inTime.trans_le' (Nat.le_add_right _ _))
          (usesAnalyticalModel_disabled serving.disabled _ _)
      have bounded := placed.bounded
      have fits := placed.fits
      have roomy : queue.freeIntervalList.getLast? = some interval →
          startIn request.pktTime interval + request.processingTime +
            queue.minProcessingTime ≤ interval.2 := by
        intro same
        rw [final] at same
        cases same
        omega
      obtain ⟨first, ends, early⟩ := pieces_last split final placed roomy
      obtain ⟨granted, run⟩ := ih
        (kept.replace split placed roomy (kept.summed.update (by omega)))
        (serving.call requestProper call).1
        (fun other member => proper other (List.mem_cons_of_mem _ member))
        (fun other member => by
          have := inTime other (List.mem_cons_of_mem _ member)
          rw [List.map_cons, List.sum_cons] at this
          dsimp only
          omega)
        ((trim_getLast? kept.positive _).trans ends) stop
        ((Nat.add_le_add_right (Nat.add_le_add_right early _) _).trans
          together)
      exact ⟨_, bind_eq_ok.mpr ⟨_, call, map_eq_ok.mpr
        ⟨granted, run, rfl⟩⟩⟩

/-- The resource is never granted twice at one time, and no request is served
before it arrives. -/
theorem grants_never_overlap (minProcessingTime maxListSize : Nat)
    {requests : List Request}
    (short : ∀ request ∈ requests,
      request.processingTime ≤ minProcessingTime)
    (inTime : ∀ request ∈ requests,
      request.pktTime + request.processingTime <
        2 ^ 63 - minProcessingTime) :
    (∀ granted,
      (initial minProcessingTime maxListSize false).grants requests =
          .ok granted →
        granted.Pairwise Apart ∧
          List.Forall₂ (fun request grant => request.pktTime ≤ grant.1 ∧
            grant.2 = grant.1 + request.processingTime) requests granted) ∧
    (0 < maxListSize →
      (∀ request ∈ requests, request.pktTime +
        (requests.map Request.processingTime).sum <
          2 ^ 63 - minProcessingTime) →
      ∃ granted,
        (initial minProcessingTime maxListSize false).grants requests =
          .ok granted) := by
  rcases requests with _ | ⟨earliest, rest⟩
  · exact ⟨fun granted run => by
      cases run
      exact ⟨List.Pairwise.nil, List.Forall₂.nil⟩, fun _ _ => ⟨[], rfl⟩⟩
  have room := inTime earliest List.mem_cons_self
  have proper : ∀ request ∈ earliest :: rest,
      request.Proper minProcessingTime := fun request member => by
    have := inTime request member
    exact ⟨short request member, by omega⟩
  have serving :
      (initial minProcessingTime maxListSize false).Serving [] := by
    refine ⟨rfl, .of_increasing (.singleton (Nat.zero_le _)),
      fun interval free => ?_, fun interval free => ?_⟩
    · rw [List.mem_singleton.mp free]
      dsimp only [initial]
      omega
    · rw [List.mem_singleton.mp free]
  refine ⟨fun granted run => ?_, fun positive together => ?_⟩
  · obtain ⟨single, _, each⟩ := serving.grants proper run
    exact ⟨single, each⟩
  · refine Kept.grants (.of_initial minProcessingTime positive false) serving
      proper (fun request member => ?_) (rfl : _ = some (0, 2 ^ 63)) rfl ?_
    · have := together request member
      dsimp only [initial]
      omega
    · have := together earliest List.mem_cons_self
      dsimp only [initial]
      omega

/-- Two late requests among earlier ones, with room for one free interval. -/
theorem grants_never_overlap_late :
    ∃ granted,
      (initial 10 1 false).grants [⟨20, 10⟩, ⟨0, 10⟩, ⟨50, 5⟩, ⟨25, 10⟩] =
          .ok granted ∧ granted.Pairwise Apart := by
  have sound := @grants_never_overlap 10 1
    [⟨20, 10⟩, ⟨0, 10⟩, ⟨50, 5⟩, ⟨25, 10⟩] (by decide) (by decide)
  obtain ⟨granted, run⟩ := sound.2 (by decide) (by decide)
  exact ⟨granted, run, (sound.1 granted run).1⟩

end HistoryList

end ChipletSniper.Queueing
