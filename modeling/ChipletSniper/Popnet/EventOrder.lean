import Mathlib.Algebra.Order.Field.Basic
import Mathlib.Tactic.Positivity
import ChipletSniper.Popnet.InjectionQueues

/-!
# The order of the events

The message queue is filled while it is drained: the trace file announces its
next record, a `ROUTER_` event the next one, and a stage adds flits and credits
with their delays.  With exact arithmetic no producer adds an event to the
past, one `ROUTER_` event is always waiting, and an `EVG_` event waits for the
first unread record only.
-/

namespace ChipletSniper.Popnet

open Library Relation

variable {Time : Type}

/-! ## Delays -/

/-- No delay is negative. -/
structure Clock.Forward [LinearOrder Time] (clock : Clock Time) : Prop where
  wire : ∀ delay time, time ≤ clock.wire delay time
  credit : ∀ time, time ≤ clock.credit time
  slack : ∀ time, time ≤ clock.slack time

section Exact

variable {K : Type} [Field K] [LinearOrder K] [IsStrictOrderedRing K]

/-- What `getWireDelay` returns. -/
def WireDelay.length : WireDelay → K
  | .short => 957 / 100
  | .starInner => 478721 / 10000
  | .starOuter => 1244789 / 10000

theorem WireDelay.length_nonneg (delay : WireDelay) :
    (0 : K) ≤ delay.length := by
  cases delay <;> exact div_nonneg (by positivity) (by positivity)

/-- The sums of the source, without rounding. -/
def exactClock : Clock K where
  wire := fun delay time => delay.length + time
  credit := fun time => time + 1
  pipe := fun time => time + 1
  slack := fun time => time + 1 / 10 ^ 8
  wire_mono := fun _ _ _ earlier => add_le_add_right earlier _
  le_pipe := fun _ => le_add_of_nonneg_right zero_le_one

theorem exactClock_forward : (exactClock : Clock K).Forward where
  wire := fun delay _ => le_add_of_nonneg_left delay.length_nonneg
  credit := fun _ => le_add_of_nonneg_right zero_le_one
  slack := fun _ => le_add_of_nonneg_right (by positivity)

end Exact

/-! ## Kinds of events -/

section Kinds

/-- The time of an `EVG_` event. -/
def Event.evgTime (event : Event Time) : Option Time :=
  match event.mess with
  | .evg => some event.time
  | _ => none

/-- The event is an `EVG_` event. -/
def Event.isEVG (event : Event Time) : Bool :=
  event.evgTime.isSome

/-- The event is a `ROUTER_` event. -/
def Event.isROUTER (event : Event Time) : Bool :=
  match event.mess with
  | .router => true
  | _ => false

variable [LinearOrder Time] {config : Config} {clock : Clock Time}
variable {now : Time}

/-- What a stage adds to the queue. -/
theorem emits_of_moves {work after : Work Time}
    (moves : Moves config clock now work after) (start : work.emitted = []) :
    ∀ event ∈ after.emitted,
      ∃ address, Emits config clock now address event := by
  refine invariant_of_reflTransGen
    (fun (work : Work Time) => ∀ event ∈ work.emitted,
      ∃ address, Emits config clock now address event) ?_ ?_ moves
  · intro before after earlier move event member
    rcases move.emits member with old | new
    · exact earlier event old
    · exact ⟨_, new⟩
  · rw [start]
    exact fun _ nobody => by cases nobody

/-- It lies in the future, and it is a flit or a credit. -/
theorem Emits.fresh {address : Addr} {event : Event Time}
    (emits : Emits config clock now address event)
    (forward : clock.Forward) :
    now ≤ event.time ∧ event.evgTime = none ∧ event.isROUTER = false := by
  cases emits with
  | credit src des pc vc same =>
      rw [same]
      exact ⟨forward.credit now, rfl, rfl⟩
  | wire i vc flit outer same =>
      rw [same]
      exact ⟨forward.wire _ now, rfl, rfl⟩

end Kinds

/-! ## The queue -/

section Queue

variable [LinearOrder Time] {config : Config} {clock : Clock Time}
variable {sim next : Sim Time}

/-- What holds for the events and the records they come from. -/
structure EventInv (sim : Sim Time) : Prop where
  ordered : Ordered Event.time sim.queue
  later : ∀ event ∈ sim.queue, sim.currentTime ≤ event.time
  announced : ∀ record ∈ sim.trace.head?,
    sim.queue.filterMap Event.evgTime = [record.time]
  single : (sim.queue.filterMap Event.evgTime).length ≤ 1
  ticking : sim.queue.countP Event.isROUTER = 1
  sorted : (sim.trace.map Record.time).Pairwise (· ≤ ·)

theorem eventInv_start {time : Time} {trace : List (Record Time)}
    (sorted : (time :: trace.map Record.time).Pairwise (· ≤ ·))
    (files : Addr → List (Record Time)) (rng : Rng) :
    EventInv (Sim.start config time trace files rng) := by
  obtain ⟨first, behind⟩ := List.pairwise_cons.mp sorted
  have queue : (Sim.start config time trace files rng).queue =
      enqueue Event.time ⟨(trace.head?.map Record.time).getD time, .evg⟩
        [⟨time, .router⟩] := rfl
  have evgs : (Sim.start config time trace files rng).queue.filterMap
      Event.evgTime = [(trace.head?.map Record.time).getD time] := by
    rw [queue]
    exact List.perm_singleton.mp ((enqueue_perm _ _).filterMap _)
  refine ⟨?_, ?_, ?_, by rw [evgs]; exact Nat.le_refl 1, ?_, behind⟩
  · rw [queue]
    exact Ordered.enqueue (List.pairwise_singleton _ _) _
  · intro event member
    show time ≤ event.time
    rw [queue] at member
    rcases mem_enqueue.mp member with isEvg | isRouter
    · rw [isEvg]
      show time ≤ (trace.head?.map Record.time).getD time
      cases found : trace.head? with
      | none => exact le_refl time
      | some record =>
          exact first record.time
            (List.mem_map.mpr ⟨record, List.mem_of_head? found, rfl⟩)
    · rw [List.mem_singleton.mp isRouter]
  · intro record isHead
    have head : trace.head? = some record := isHead
    rw [evgs, head]
    rfl
  · rw [queue, (enqueue_perm _ _).countP_eq]
    rfl

/-- The first event is handled: all others, old and new, are not earlier. -/
theorem EventInv.behind (inv : EventInv sim) (added : List (Event Time))
    {event : Event Time} {rest : List (Event Time)}
    (queue : sim.queue = event :: rest)
    (fresh : ∀ new ∈ added, event.time ≤ new.time) :
    Ordered Event.time (enqueueAll Event.time added rest) ∧
      ∀ other ∈ enqueueAll Event.time added rest,
        event.time ≤ other.time := by
  have ordered := inv.ordered
  rw [queue] at ordered
  obtain ⟨first, behind⟩ := List.pairwise_cons.mp ordered
  refine ⟨Ordered.enqueueAll added behind, ?_⟩
  intro other member
  rcases mem_enqueueAll.mp member with isNew | waiting
  · exact fresh other isNew
  · exact first other waiting

/-- The first event is handled, and it is not an `EVG_` event. -/
theorem EventInv.of_event (inv : EventInv sim) (added : List (Event Time))
    {event : Event Time} {rest : List (Event Time)}
    (queue : sim.queue = event :: rest) (other : event.evgTime = none)
    (fresh : ∀ new ∈ added, event.time ≤ new.time ∧ new.evgTime = none)
    (ticks : added.countP Event.isROUTER =
      [event].countP Event.isROUTER)
    (nextQueue : next.queue = enqueueAll Event.time added rest)
    (time : next.currentTime = event.time)
    (sameTrace : next.trace = sim.trace) : EventInv next := by
  obtain ⟨ordered, later⟩ := inv.behind added queue fun new isNew =>
    (fresh new isNew).1
  have evgs : next.queue.filterMap Event.evgTime =
      sim.queue.filterMap Event.evgTime := by
    rw [nextQueue, queue, List.filterMap_cons_none other,
      filterMap_enqueueAll_of_none fun new isNew => (fresh new isNew).2]
  refine ⟨nextQueue ▸ ordered, ?_, ?_, evgs ▸ inv.single, ?_,
    sameTrace ▸ inv.sorted⟩
  · rw [nextQueue, time]
    exact later
  · rw [sameTrace, evgs]
    exact inv.announced
  · rw [nextQueue, (enqueueAll_perm _ _).countP_eq, List.countP_append, ticks,
      ← List.countP_append, List.singleton_append, ← queue]
    exact inv.ticking

/-- `receive_EVG_message`: the next record is announced. -/
theorem EventInv.evg (inv : EventInv sim) {time : Time}
    {rest : List (Event Time)} {record : Record Time}
    {records : List (Record Time)}
    (queue : sim.queue = ⟨time, .evg⟩ :: rest)
    (isTrace : sim.trace = record :: records)
    (nextQueue : next.queue = enqueueAll Event.time
      (records.head?.toList.map fun record => ⟨record.time, .evg⟩) rest)
    (sameTime : next.currentTime = time) (nextTrace : next.trace = records) :
    EventInv next := by
  have announced := inv.announced record (by rw [isTrace]; rfl)
  rw [queue] at announced
  obtain ⟨rfl, nothing⟩ : time = record.time ∧
      rest.filterMap Event.evgTime = [] := by
    simpa [Event.evgTime] using announced
  have sorted := inv.sorted
  rw [isTrace, List.map_cons] at sorted
  obtain ⟨first, behind⟩ := List.pairwise_cons.mp sorted
  obtain ⟨ordered, later⟩ := inv.behind
    (records.head?.toList.map fun record => ⟨record.time, .evg⟩) queue (by
      intro new isNew
      obtain ⟨following, isHead, rfl⟩ := List.mem_map.mp isNew
      rw [Option.mem_toList] at isHead
      exact first following.time
        (List.mem_map.mpr ⟨following, List.mem_of_head? isHead, rfl⟩))
  -- the new announcement is the only one
  have evgs : next.queue.filterMap Event.evgTime =
      (records.head?.map Record.time).toList := by
    cases isHead : records.head? with
    | none =>
        rw [isHead] at nextQueue
        rw [nextQueue]
        exact nothing
    | some following =>
        rw [isHead] at nextQueue
        rw [nextQueue]
        refine List.perm_singleton.mp
          (((enqueueAll_perm _ _).filterMap _).trans ?_)
        rw [List.filterMap_append, nothing]
        exact List.Perm.refl _
  refine ⟨nextQueue ▸ ordered, ?_, ?_, ?_, ?_, nextTrace ▸ behind⟩
  · rw [nextQueue, sameTime]
    exact later
  · intro following isHead
    rw [nextTrace] at isHead
    rw [evgs, isHead]
    rfl
  · rw [evgs]
    cases records.head? <;> simp
  · have ticking := inv.ticking
    rw [queue] at ticking
    rw [nextQueue, (enqueueAll_perm _ _).countP_eq, List.countP_append]
    have quiet : (records.head?.toList.map fun record : Record Time =>
        (⟨record.time, .evg⟩ : Event Time)).countP Event.isROUTER = 0 := by
      cases records.head? <;> rfl
    rw [quiet, Nat.zero_add]
    exact ticking

/-- A stage of a router. -/
theorem EventInv.stage (inv : EventInv sim) (forward : clock.Forward)
    (ready : sim.Ready config) {address : Addr} {rest : List Addr}
    {work : Work Time} (agenda : sim.agenda = address :: rest)
    (ran : sim.stage.run config clock sim.currentTime (sim.work address) =
      .ok work) :
    EventInv (sim.absorb address work) := by
  have first : address ∈ sim.agenda.head? := by simp [agenda]
  have moves := moves_stage
    (fun atSwitch => ready.free atSwitch address first) ran
  have fresh : ∀ event ∈ work.emitted, sim.currentTime ≤ event.time ∧
      event.evgTime = none ∧ event.isROUTER = false := by
    intro event member
    obtain ⟨_, emits⟩ := emits_of_moves moves rfl event member
    exact emits.fresh forward
  have evgs : (sim.absorb address work).queue.filterMap Event.evgTime =
      sim.queue.filterMap Event.evgTime :=
    filterMap_enqueueAll_of_none fun event isNew => (fresh event isNew).2.1
  refine ⟨Ordered.enqueueAll _ inv.ordered, ?_, ?_, evgs ▸ inv.single, ?_,
    inv.sorted⟩
  · intro event member
    rcases mem_enqueueAll.mp member with isNew | waiting
    · exact (fresh event isNew).1
    · exact inv.later event waiting
  · rw [evgs]
    exact inv.announced
  · have quiet : work.emitted.countP Event.isROUTER = 0 :=
      List.countP_eq_zero.mpr fun event isNew => by
        rw [(fresh event isNew).2.2]
        exact Bool.false_ne_true
    rw [← inv.ticking]
    exact ((enqueueAll_perm _ _).countP_eq _).trans
      (by rw [List.countP_append, quiet, Nat.zero_add])

/-- A step keeps the order of the events, and time does not run backwards. -/
theorem EventInv.step {simLength : Time} (inv : EventInv sim)
    (forward : clock.Forward) (ready : sim.Ready config)
    (run : sim.step config clock simLength = .ok next) :
    EventInv next ∧ sim.currentTime ≤ next.currentTime := by
  have first : ∀ {event rest}, sim.queue = event :: rest →
      sim.currentTime ≤ event.time :=
    fun queue => inv.later _ (queue ▸ List.mem_cons_self)
  cases stepCase run with
  | stage address rest work agenda ran after =>
      have kept := inv.stage forward ready agenda ran
      rw [after]
      unfold Sim.advance
      split
      · exact ⟨⟨kept.ordered, kept.later, kept.announced, kept.single,
          kept.ticking, kept.sorted⟩, le_refl _⟩
      · exact ⟨⟨kept.ordered, kept.later, kept.announced, kept.single,
          kept.ticking, kept.sorted⟩, le_refl _⟩
  | evg time rest record records address router _ queue isTrace _ _ after =>
      rw [after]
      exact ⟨inv.evg queue isTrace rfl rfl rfl, first queue⟩
  | router time rest _ queue after =>
      rw [after]
      refine ⟨inv.of_event [⟨clock.pipe time, .router⟩] queue rfl
        ?_ rfl rfl rfl rfl, first queue⟩
      intro new member
      rw [List.mem_singleton.mp member]
      exact ⟨clock.le_pipe time, rfl⟩
  | wire time src des pc vc flit rest address _ queue _ _ after =>
      rw [after]
      refine ⟨inv.of_event [] queue rfl ?_ rfl rfl rfl rfl,
        first queue⟩
      intro new member
      cases member
  | credit time src des pc vc rest address _ queue _ _ after =>
      rw [after]
      refine ⟨inv.of_event [] queue rfl ?_ rfl rfl rfl rfl,
        first queue⟩
      intro new member
      cases member

end Queue

/-! ## Runs -/

section Runs

/-- No event lies in the past; one `ROUTER_` event and at most one `EVG_`
event are waiting. -/
structure Sim.Chronological [LinearOrder Time] (sim : Sim Time) : Prop where
  later : ∀ event ∈ sim.queue, sim.currentTime ≤ event.time
  router : sim.queue.countP Event.isROUTER = 1
  evg : sim.queue.countP Event.isEVG ≤ 1

theorem EventInv.chronological [LinearOrder Time] {sim : Sim Time}
    (inv : EventInv sim) : sim.Chronological where
  later := inv.later
  router := inv.ticking
  evg := by
    have single := inv.single
    rw [List.length_filterMap_eq_countP] at single
    exact single

/-- The stages do not look at the order of the events. -/
theorem stage_error_ne_pastEvent [LinearOrder Time] {config : Config}
    {clock : Clock Time} {now : Time} {work : Work Time} {stage : Stage} :
    stage.run config clock now work ≠ .error .pastEvent := by
  intro failed
  cases stage with
  | flitTraversal => cases failed
  | flitOutbuffer =>
      obtain ⟨vc, _, work, failed⟩ := exists_of_foldlM_error failed
      simp only [flitOutbufferVC] at failed
      split at failed
      case isFalse => cases failed
      case isTrue =>
      split at failed
      case h_1 => cases failed
      case h_2 => cases failed
      case h_3 =>
        have refilling := map_eq_error.mp failed
        unfold refill at refilling
        split at refilling
        case isFalse => cases refilling
        case isTrue =>
          rcases receiveRecords_error refilling with other | other
          · cases other
          · cases other
  | swArbitration =>
      have failed : swArbitration config work = .error .pastEvent := failed
      unfold swArbitration at failed
      split at failed
      case isTrue => cases failed
      case isFalse =>
        obtain ⟨port, _, work, failed⟩ := exists_of_foldlM_error failed
        unfold swGrantPort at failed
        split at failed
        · cases failed
        · split at failed <;> cases failed
  | vcArbitration =>
      rcases vcArbitration_error failed with other | other <;> cases other
  | routingDecision =>
      obtain ⟨vc, _, work, failed⟩ := exists_of_foldlM_error failed
      unfold routingDecisionVC at failed
      dsimp only at failed
      split at failed
      case h_1 =>
        unfold routeHeader at failed
        split at failed
        · cases failed
        · split_ifs at failed
          cases failed
      case h_2 =>
        unfold acceptAtHome at failed
        split at failed
        · cases failed
        · split_ifs at failed
          cases failed
      case h_3 => cases failed

/-- The assertion of `simulator` holds. -/
theorem EventInv.step_ne [LinearOrder Time] {config : Config}
    {clock : Clock Time} {simLength : Time} {sim : Sim Time}
    (inv : EventInv sim) (forward : clock.Forward) :
    sim.step config clock simLength ≠ .error .pastEvent := by
  intro failed
  unfold Sim.step at failed
  split at failed
  case h_2 =>
    rcases bind_eq_error.mp failed with stage | ⟨work, _, absorbed⟩
    · exact stage_error_ne_pastEvent stage
    · cases absorbed
  case h_1 =>
    unfold Sim.handle at failed
    split at failed
    case h_1 => cases failed
    case h_2 event rest queue =>
    have due : sim.currentTime ≤ clock.slack event.time :=
      (inv.later event (queue ▸ List.mem_cons_self)).trans
        (forward.slack event.time)
    split_ifs at failed with ended past
    · cases failed
    · exact absurd past (not_lt.mpr due)
    · rcases receive_error failed with other | other | other <;> cases other

theorem eventInv_of_steps [LinearOrder Time] {config : Config}
    {clock : Clock Time} {simLength : Time} (forward : clock.Forward)
    {sim last : Sim Time} (ready : sim.Ready config) (inv : EventInv sim)
    (steps : ReflTransGen
      (fun sim next => sim.step config clock simLength = .ok next) sim last) :
    last.Ready config ∧ EventInv last ∧
      sim.currentTime ≤ last.currentTime := by
  refine invariant_of_reflTransGen
    (fun (last : Sim Time) => last.Ready config ∧ EventInv last ∧
      sim.currentTime ≤ last.currentTime)
    ?_ ⟨ready, inv, le_refl _⟩ steps
  rintro before after ⟨ready, inv, onward⟩ step
  have anywhere : before.PassesOnly fun _ _ => True :=
    fun _ _ _ _ _ _ _ => trivial
  obtain ⟨invAfter, further⟩ := inv.step forward ready step
  exact ⟨(ready.step anywhere step).1, invAfter, onward.trans further⟩

variable {K : Type} [Field K] [LinearOrder K] [IsStrictOrderedRing K]

/-- With exact arithmetic, in every state of every run on a trace whose times
are not negative and do not decrease: no event lies in the past, one `ROUTER_`
event and at most one `EVG_` event are waiting, the assertion of `simulator`
does not fail, and no later state has an earlier time. -/
theorem time_never_runs_backwards {config : Config} {simLength : K}
    {trace : List (Record K)} {files : Addr → List (Record K)} {rng : Rng}
    {sim : Sim K} (nonneg : ∀ record ∈ trace, 0 ≤ record.time)
    (sorted : trace.Pairwise fun first second => first.time ≤ second.time)
    (reached : Sim.Reachable config exactClock simLength 0 trace files rng
      sim) :
    sim.Chronological ∧
      sim.step config exactClock simLength ≠ .error .pastEvent ∧
      ∀ last, ReflTransGen
        (fun sim next => sim.step config exactClock simLength = .ok next)
        sim last → sim.currentTime ≤ last.currentTime := by
  have times : ((0 : K) :: trace.map Record.time).Pairwise (· ≤ ·) := by
    refine List.pairwise_cons.mpr ⟨?_, List.pairwise_map.mpr sorted⟩
    intro time member
    obtain ⟨record, listed, rfl⟩ := List.mem_map.mp member
    exact nonneg record listed
  obtain ⟨ready, inv, _⟩ := eventInv_of_steps exactClock_forward ready_start
    (eventInv_start times files rng) reached
  refine ⟨inv.chronological, inv.step_ne exactClock_forward, ?_⟩
  intro last steps
  exact (eventInv_of_steps exactClock_forward ready inv steps).2.2

/-- Packets of two routers. -/
def spacedRecords : List (Record ℚ) :=
  [⟨0, [1, 0], [0, 0], 1⟩, ⟨15 / 2, [0, 1], [0, 0], 1⟩]

/-- A cycle, a record and a flit on a link are ahead. -/
theorem time_never_runs_backwards_mesh :
    ∃ sim : Sim ℚ,
      Sim.Reachable meshTwo exactClock 100 0 spacedRecords
        (fun address => spacedRecords.filter (·.sorAddr = address))
        ⟨fun _ => 0, 0⟩ sim ∧
      sim.currentTime = 6 ∧
      sim.queue.map Event.time = [7, 15 / 2, 1457 / 100] ∧
      sim.Chronological := by
  have observed : ((Sim.start meshTwo (0 : ℚ) spacedRecords
      (fun address => spacedRecords.filter (·.sorAddr = address))
      ⟨fun _ => 0, 0⟩).stepsWhile meshTwo exactClock 100 (fun _ => true)
      128).map (fun sim => (sim.currentTime, sim.queue.map Event.time)) =
      .ok (6, [7, 15 / 2, 1457 / 100]) := by decide +kernel
  obtain ⟨sim, run, observed⟩ := map_eq_ok.mp observed
  rw [Prod.mk.injEq] at observed
  have reached : Sim.Reachable meshTwo exactClock 100 0 spacedRecords
      (fun address => spacedRecords.filter (·.sorAddr = address))
      ⟨fun _ => 0, 0⟩ sim :=
    ReflTransGen.mono (fun _ _ both => And.right both) _ _
      (reachableWhile_of_steps
        (show ∀ sim : Sim ℚ, _ → True from fun _ _ => trivial) run)
  exact ⟨sim, reached, observed.1, observed.2,
    (time_never_runs_backwards (by decide +kernel) (by decide +kernel)
      reached).1⟩

end Runs

end ChipletSniper.Popnet
