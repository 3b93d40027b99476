import ChipletSniper.Threads.BarrierModes
import ChipletSniper.Threads.BarrierSafety

/-!
# The barrier across changes of its mode

Cores that do not wait are below the barrier time as long as every switch to
detailed mode sets the time above the recorded clocks, and then a release has
a core to take out.
-/

namespace ChipletSniper.Threads

namespace BarrierServer

variable {n : Nat}

/-- Signals change nothing but the list of cores to signal. -/
theorem frame_doRelease (count : Nat) (server : BarrierServer n) :
    Frame server (doRelease count server) := by
  induction count generalizing server with
  | zero => exact .refl server
  | succ count ih =>
      unfold doRelease
      cases server.toRelease.getLast? with
      | none => exact .refl server
      | some core =>
          refine Frame.trans ?_ (ih _)
          refine ⟨rfl, rfl, rfl, rfl, rfl, rfl, rfl, rfl, rfl, ?_⟩
          intro other member
          exact List.dropLast_subset _ member

end BarrierServer

namespace ModalServer

open BarrierServer (doRelease frame_doRelease)

variable {n : Nat} {server next : ModalServer n} {release : Release n}

/-- In detailed mode the cores that do not wait are below the barrier time. -/
def Below (server : ModalServer n) : Prop :=
  server.disable = false → server.fastforward = false →
    ∀ core, server.acquire core = false →
      server.localClock core < server.nextBarrierTime

/-- A release that `signal` or `synchronize` started has a core to take out. -/
def HasWaiting (server : ModalServer n) : Prop :=
  ∀ release, server.release = some release → release.untilRelease = false →
    server.disable = false → ∃ core, server.acquire core = true

structure Inv (server : ModalServer n) : Prop where
  positive : 0 < server.interval
  below : server.Below
  waits : server.HasWaiting

/-- The part of the state that the invariant reads is the same, but clocks may
be reset. -/
structure Agrees (before after : ModalServer n) : Prop where
  interval : after.interval = before.interval
  next : after.nextBarrierTime = before.nextBarrierTime
  disable : after.disable = before.disable
  fastforward : after.fastforward = before.fastforward
  acquire : after.acquire = before.acquire
  clock : ∀ core, after.localClock core ≤ before.localClock core

theorem Agrees.below (agrees : server.Agrees next) (below : server.Below) :
    next.Below := by
  intro enabled detailed core free
  rw [agrees.disable] at enabled
  rw [agrees.fastforward] at detailed
  rw [agrees.acquire] at free
  rw [agrees.next]
  exact Nat.lt_of_le_of_lt (agrees.clock core)
    (below enabled detailed core free)

theorem Agrees.inv (agrees : server.Agrees next)
    (same : next.release = server.release) (inv : server.Inv) : next.Inv where
  positive := agrees.interval ▸ inv.positive
  below := agrees.below inv.below
  waits := by
    intro release pending single enabled
    rw [same] at pending
    rw [agrees.disable] at enabled
    rw [agrees.acquire]
    exact inv.waits release pending single enabled

theorem hasWaiting_of_release_eq_none (ended : server.release = none) :
    server.HasWaiting := by
  intro release pending
  rw [ended] at pending
  cases pending

/-! ## Signals and clocks -/

theorem agrees_releaseThread (server : ModalServer n) (thread : ThreadId) :
    server.Agrees (server.releaseThread thread) := by
  have frame := frame_doRelease 1
    { server.toBarrierServer with
      localClock := fun core =>
        if server.acquire core = true ∧ server.coreThread core = some thread
        then 0 else server.localClock core }
  refine ⟨frame.interval, frame.next, rfl, rfl, frame.acquire, ?_⟩
  intro core
  refine Nat.le_trans (Nat.le_of_eq (congrFun frame.clocks core)) ?_
  dsimp only
  split
  next => exact Nat.zero_le _
  next => exact Nat.le_refl _

theorem agrees_returned (server : ModalServer n) (release : Release n)
    (mustWait : Bool) :
    server.Agrees (server.returned release mustWait) ∧
      (server.returned release mustWait).release = none := by
  unfold returned
  dsimp only
  split
  next =>
    split
    next =>
      exact ⟨⟨rfl, rfl, rfl, rfl, rfl, fun core => Nat.le_refl _⟩, rfl⟩
    next =>
      exact ⟨⟨rfl, rfl, rfl, rfl, rfl, fun core => Nat.le_refl _⟩, rfl⟩
  next => exact ⟨⟨rfl, rfl, rfl, rfl, rfl, fun core => Nat.le_refl _⟩, rfl⟩

/-! ## When the barrier is reached -/

/-- `isBarrierReached` counts the core as having arrived. -/
structure Counted (server : ModalServer n) (core : Fin n) : Prop where
  master : server.coreGroup core = none
  running : server.isCoreRunning core = true
  arrived : server.nextBarrierTime ≤ server.localClock core

theorem reachedLoop_spec {cores : List (Fin n)} {reached : Bool}
    (result : server.reachedLoop cores reached = true) :
    reached = true ∨ ∃ core,
      (server.fastforward = true ∧ server.acquire core = true) ∨
        (server.fastforward = false ∧ server.Counted core) := by
  induction cores generalizing reached with
  | nil => exact Or.inl result
  | cons core rest ih =>
      unfold reachedLoop at result
      by_cases fast : server.fastforward = true
      · rw [if_pos fast] at result
        split at result
        next waits => exact Or.inr ⟨core, Or.inl ⟨fast, waits⟩⟩
        next =>
          split at result
          next => cases result
          next => exact ih result
      · rw [if_neg fast] at result
        split at result
        next => exact ih result
        next master =>
          split at result
          next running =>
            split at result
            next => cases result
            next arrived =>
              refine Or.inr ⟨core, Or.inr ⟨?_, ?_, running, ?_⟩⟩
              · exact Bool.eq_false_of_not_eq_true fast
              · exact Option.not_isSome_iff_eq_none.mp master
              · exact Nat.le_of_not_lt arrived
          next => exact ih result

/-- A core that is counted waits in the barrier. -/
theorem Below.waits_of_counted (below : server.Below)
    (enabled : server.disable = false) (detailed : server.fastforward = false)
    {core : Fin n} (counted : server.Counted core) :
    server.acquire core = true := by
  cases waits : server.acquire core with
  | true => rfl
  | false =>
      exact absurd (below enabled detailed core waits)
        (Nat.not_lt_of_le counted.arrived)

/-- If the barrier is reached some core waits in it. -/
theorem Below.waits_of_reached (below : server.Below)
    (enabled : server.disable = false)
    (reached : server.isBarrierReached = true) :
    ∃ core, server.acquire core = true := by
  obtain impossible | ⟨core, ⟨_, waits⟩ | ⟨detailed, counted⟩⟩ :=
    reachedLoop_spec reached
  · cases impossible
  · exact ⟨core, waits⟩
  · exact ⟨core, below.waits_of_counted enabled detailed counted⟩

/-! ## The calls -/

/-- A release starts with the clocks as they are. -/
theorem Inv.barrierRelease {caller : Option (Fin n × ThreadId)}
    {untilRelease : Bool} (positive : 0 < server.interval)
    (below : server.Below)
    (waits : untilRelease = false → server.disable = false →
      ∃ core, server.acquire core = true)
    (result : server.barrierRelease caller untilRelease = .ok next) :
    next.Inv := by
  unfold ModalServer.barrierRelease at result
  split at result
  next => cases result
  next =>
    cases result
    refine ⟨positive, ?_, ?_⟩
    · intro enabled detailed core free
      have detailed : server.fastforward = false := detailed
      unfold callHooks
      dsimp only
      rw [if_neg (by rw [detailed]; exact Bool.false_ne_true)]
      exact below enabled detailed core free
    · intro release pending single enabled
      cases pending
      exact waits single enabled

theorem Inv.signal (inv : server.Inv)
    (result : server.signal = .ok next) : next.Inv := by
  unfold ModalServer.signal at result
  split at result
  next =>
    cases result
    exact inv
  next enabled =>
    split at result
    next reached =>
      refine Inv.barrierRelease inv.positive inv.below ?_ result
      intro _ enabled
      exact inv.below.waits_of_reached enabled reached
    next =>
      cases result
      exact inv

theorem below_enter {core : Fin n} {thread : ThreadId} {time : Time}
    (below : server.Below) : (server.enter core thread time).Below := by
  have frame := frame_doRelease 1 server.toBarrierServer
  intro enabled detailed other free
  unfold enter BarrierServer.enter at free ⊢
  dsimp only at free ⊢
  by_cases same : other = core
  · rw [same, Function.update_self] at free
    cases free
  · rw [Function.update_of_ne same] at free ⊢
    rw [frame.acquire] at free
    rw [frame.clocks, frame.next]
    exact below enabled detailed other free

theorem Inv.synchronize {core : Fin n} {thread : ThreadId} {time : Time}
    (inv : server.Inv) (idle : server.release = none)
    (result : server.synchronize core thread time = .ok next) :
    next.Inv := by
  unfold ModalServer.synchronize at result
  split at result
  next =>
    cases result
    exact inv
  next =>
    dsimp only at result
    split at result
    next => cases result
    next =>
      split at result
      next =>
        cases result
        exact inv
      next =>
        have positive : 0 <
            (server.enter (server.masterCore core) thread time).interval :=
          (frame_doRelease 1 server.toBarrierServer).interval ▸ inv.positive
        split at result
        next =>
          refine Inv.barrierRelease positive (below_enter inv.below) ?_ result
          intro _ _
          exact ⟨server.masterCore core, Function.update_self _ _ _⟩
        next =>
          cases result
          exact ⟨positive, below_enter inv.below,
            hasWaiting_of_release_eq_none idle⟩

/-- All that the loop of `barrierRelease` does after a hook. -/
theorem hooksCalled_cases {result : HookResult n}
    (called : server.hooksCalled release result = .ok next) :
    next = server.returned release false ∨
      (server.disable = false ∧
        (server.toBarrierServer.advanceTime release.before).leaving = [] ∧
        next = (server.releaseCores release).callHooks release) ∨
      ∃ order count mustWait,
        next = ({ server.releaseCores release with
          toBarrierServer := doRelease count
            { (server.releaseCores release).toBarrierServer with
              toRelease := order } }.returned release mustWait) := by
  unfold ModalServer.hooksCalled at called
  dsimp only at called
  split at called
  next =>
    cases called
    exact Or.inl rfl
  next =>
    split at called
    next => cases called
    next =>
      split at called
      next =>
        cases called
        exact Or.inl rfl
      next enabled =>
        split at called
        next empty =>
          cases called
          refine Or.inr (Or.inl ⟨?_, empty, rfl⟩)
          exact Bool.eq_false_of_not_eq_true enabled
        next =>
          split at called
          next =>
            cases called
            exact Or.inr (Or.inr ⟨_, _, _, rfl⟩)
          next => cases called

/-- A core that does not wait after an advance is below the new time. -/
theorem below_releaseCores (below : server.Below) :
    (server.releaseCores release).Below := by
  intro enabled detailed core free
  have free : (server.acquire core && !decide (core ∈
      (server.toBarrierServer.advanceTime release.before).leaving)) = false :=
    free
  change server.localClock core < server.nextBarrierTime + server.interval
  cases waits : server.acquire core with
  | false =>
      exact Nat.lt_add_right _ (below enabled detailed core waits)
  | true =>
      rw [waits, Bool.true_and, Bool.not_eq_false', decide_eq_true_iff] at free
      have leaves := (List.mem_filter.mp free).2
      rw [Bool.and_eq_true, decide_eq_true_iff] at leaves
      exact leaves.1

/-- No core is taken out if none is below the new time. -/
theorem acquire_releaseCores
    (empty : (server.toBarrierServer.advanceTime release.before).leaving = [])
    (core : Fin n) :
    (server.releaseCores release).acquire core = server.acquire core := by
  change (server.acquire core && !decide (core ∈
    (server.toBarrierServer.advanceTime release.before).leaving)) = _
  rw [empty, decide_eq_false List.not_mem_nil, Bool.not_false, Bool.and_true]

theorem Inv.hooksCalled {result : HookResult n} (inv : server.Inv)
    (pending : server.release = some release)
    (called : server.hooksCalled release result = .ok next) : next.Inv := by
  obtain rfl | ⟨enabled, empty, rfl⟩ | ⟨order, count, mustWait, rfl⟩ :=
    hooksCalled_cases called
  · obtain ⟨agrees, ended⟩ := agrees_returned server release false
    exact ⟨agrees.interval ▸ inv.positive, agrees.below inv.below,
      hasWaiting_of_release_eq_none ended⟩
  · refine ⟨inv.positive, below_releaseCores inv.below, ?_⟩
    intro release' same single enabled
    cases same
    obtain ⟨core, waits⟩ := inv.waits release pending single enabled
    exact ⟨core, (acquire_releaseCores empty core).trans waits⟩
  · have frame := frame_doRelease count
      { (server.releaseCores release).toBarrierServer with toRelease := order }
    have signalled : (server.releaseCores release).Agrees
        { server.releaseCores release with
          toBarrierServer := doRelease count
            { (server.releaseCores release).toBarrierServer with
              toRelease := order } } :=
      ⟨frame.interval, frame.next, rfl, rfl, frame.acquire,
        fun core => Nat.le_of_eq (congrFun frame.clocks core)⟩
    obtain ⟨agrees, ended⟩ := agrees_returned
      { server.releaseCores release with
        toBarrierServer := doRelease count
          { (server.releaseCores release).toBarrierServer with
            toRelease := order } } release mustWait
    refine ⟨?_, agrees.below (signalled.below (below_releaseCores inv.below)),
      hasWaiting_of_release_eq_none ended⟩
    rw [agrees.interval, signalled.interval]
    exact inv.positive

/-! ## The runs -/

/-- A switch to detailed mode sets the barrier time above all clocks, and a
barrier that is enabled again has a time above those of the cores outside.  No
hook empties a barrier that stays enabled. -/
def Fits (server : ModalServer n) : ModalAction n → Prop
  | .enable _ => server.disable = false → server.release = none
  | .disable elapsed =>
      server.disable = false → server.release = none ∧
        ∀ core, server.localClock core <
          max server.nextBarrierTime (barrierNext elapsed)
  | .setDisable disable =>
      disable = false → server.disable = true → server.release = none ∧
        (server.fastforward = false → ∀ core, server.acquire core = false →
          server.localClock core < server.nextBarrierTime)
  | _ => True

theorem ok_of_idle {call : Except Stop (ModalServer n)}
    (result : (if server.release.isSome then .error .outside else call) =
      .ok next) :
    server.release = none ∧ call = .ok next := by
  split at result
  next => cases result
  next idle => exact ⟨Option.not_isSome_iff_eq_none.mp idle, result⟩

theorem Inv.step {action : ModalAction n} (inv : server.Inv)
    (fits : server.Fits action) (result : server.step action = .ok next) :
    next.Inv := by
  cases action with
  | synchronize core thread time =>
      obtain ⟨idle, called⟩ := ok_of_idle result
      exact inv.synchronize idle called
  | stop thread =>
      obtain ⟨_, called⟩ := ok_of_idle result
      exact ((agrees_releaseThread server thread).inv rfl inv).signal called
  | advance =>
      obtain ⟨_, called⟩ := ok_of_idle result
      refine Inv.barrierRelease inv.positive inv.below ?_ called
      intro impossible
      cases impossible
  | leave core =>
      unfold ModalServer.step at result
      dsimp only at result
      split at result
      next => cases result
      next =>
        cases result
        exact ⟨inv.positive, inv.below, inv.waits⟩
  | migrate thread =>
      cases result
      exact (agrees_releaseThread server thread).inv rfl inv
  | run running =>
      cases result
      exact ⟨inv.positive, inv.below, inv.waits⟩
  | enable elapsed =>
      cases result
      refine ⟨inv.positive, ?_, ?_⟩
      · intro _ detailed
        cases detailed
      · intro release pending _ enabled
        have idle : some release = none := pending.symm.trans (fits enabled)
        cases idle
  | disable elapsed =>
      cases result
      refine ⟨inv.positive, ?_, ?_⟩
      · intro enabled _ core _
        exact (fits enabled).2 core
      · intro release pending _ enabled
        have idle : some release = none := pending.symm.trans (fits enabled).1
        cases idle
  | periodic elapsed =>
      unfold ModalServer.step at result
      dsimp only at result
      split at result
      next =>
        cases result
        refine ⟨inv.positive, ?_, inv.waits⟩
        intro _ detailed
        cases detailed
      next => cases result
  | setDisable disable =>
      cases result
      cases disable with
      | true =>
          refine ⟨inv.positive, ?_, ?_⟩
          · intro enabled
            cases enabled
          · intro _ _ _ enabled
            cases enabled
      | false =>
          cases before : server.disable with
          | false =>
              exact ⟨inv.positive, fun _ => inv.below before,
                fun release pending single _ =>
                  inv.waits release pending single before⟩
          | true =>
              obtain ⟨idle, above⟩ := fits rfl before
              exact ⟨inv.positive, fun _ => above,
                hasWaiting_of_release_eq_none idle⟩
  | hooksCalled hookResult =>
      unfold ModalServer.step at result
      dsimp only at result
      split at result
      next => cases result
      next release pending => exact inv.hooksCalled pending result

/-- The states of the runs from a barrier with a positive interval, of which
all steps are allowed. -/
inductive Reached (allowed : ModalServer n → ModalAction n → Prop) :
    ModalServer n → Prop
  | start {interval : Nat} (hostCores : Nat)
      (coreGroup : Fin n → Option (Fin n)) (positive : 0 < interval) :
      Reached allowed (initial n interval hostCores coreGroup)
  | step {server next : ModalServer n} {action : ModalAction n} :
      Reached allowed server → allowed server action →
      server.step action = .ok next → Reached allowed next

theorem Reached.inv (reached : Reached Fits server) : server.Inv := by
  induction reached with
  | start hostCores coreGroup positive =>
      exact ⟨positive, fun _ _ _ _ => positive,
        hasWaiting_of_release_eq_none rfl⟩
  | step _ fits result ih =>
      exact ih.step fits result

/-! ## Releases end -/

/-- The rounds of the loop that an action starts. -/
def ModalAction.rounds : ModalAction n → Nat
  | .hooksCalled _ => 1
  | _ => 0

/-- What a release goes through until it returns, with the number of rounds.
-/
inductive Rounds (start : ModalServer n) : Nat → ModalServer n → Prop
  | refl : Rounds start 0 start
  | step {count : Nat} {server next : ModalServer n} {action : ModalAction n} :
      Rounds start count server → server.release ≠ none →
      server.Fits action → server.step action = .ok next →
      Rounds start (count + action.rounds) next

theorem Rounds.reached {start : ModalServer n} {count : Nat}
    (reached : Reached Fits start) (rounds : Rounds start count server) :
    Reached Fits server := by
  induction rounds with
  | refl => exact reached
  | step _ _ fits result ih =>
      exact ih.step fits result

/-- While a release lasts some core waits with its clock below the limit, and
the barrier time gets there. -/
def Progress (limit count : Nat) (server : ModalServer n) : Prop :=
  server.release ≠ none → count ≤ limit ∧ (server.disable = false →
    ∃ core, server.acquire core = true ∧ server.localClock core ≤ limit ∧
      count ≤ server.nextBarrierTime)

theorem Agrees.progress {limit count : Nat} (agrees : server.Agrees next)
    (same : next.release = server.release)
    (progress : Progress limit count server) : Progress limit count next := by
  intro pending
  rw [same] at pending
  obtain ⟨bound, waiting⟩ := progress pending
  refine ⟨bound, ?_⟩
  intro enabled
  rw [agrees.disable] at enabled
  obtain ⟨core, waits, low, time⟩ := waiting enabled
  rw [agrees.acquire, agrees.next]
  exact ⟨core, waits, Nat.le_trans (agrees.clock core) low, time⟩

theorem Progress.hooksCalled {limit count : Nat} {result : HookResult n}
    (progress : Progress limit count server) (positive : 0 < server.interval)
    (pending : server.release = some release)
    (called : server.hooksCalled release result = .ok next) :
    Progress limit (count + 1) next := by
  obtain rfl | ⟨enabled, empty, rfl⟩ | ⟨order, rounds, mustWait, rfl⟩ :=
    hooksCalled_cases called
  · exact fun more => absurd (agrees_returned _ _ _).2 more
  · intro _
    obtain ⟨_, waiting⟩ := progress (by rw [pending]; exact nofun)
    obtain ⟨core, waits, low, time⟩ := waiting enabled
    have stays : server.nextBarrierTime + server.interval ≤
        server.localClock core := by
      apply Nat.le_of_not_lt
      intro leaves
      have member : core ∈
          (server.toBarrierServer.advanceTime release.before).leaving := by
        apply List.mem_filter.mpr
        refine ⟨List.mem_finRange core, ?_⟩
        rw [Bool.and_eq_true, decide_eq_true_iff]
        exact ⟨leaves, waits⟩
      rw [empty] at member
      cases member
    have reached : count + 1 ≤ server.nextBarrierTime + server.interval :=
      Nat.add_le_add time positive
    refine ⟨Nat.le_trans reached (Nat.le_trans stays low), fun _ => ?_⟩
    exact ⟨core, (acquire_releaseCores empty core).trans waits, low, reached⟩
  · exact fun more => absurd (agrees_returned _ _ _).2 more

theorem Progress.step {limit count : Nat} {action : ModalAction n}
    (progress : Progress limit count server) (positive : 0 < server.interval)
    (pending : server.release ≠ none) (fits : server.Fits action)
    (result : server.step action = .ok next) :
    Progress limit (count + action.rounds) next := by
  obtain ⟨bound, waiting⟩ := progress pending
  cases action with
  | synchronize => exact absurd (ok_of_idle result).1 pending
  | stop => exact absurd (ok_of_idle result).1 pending
  | advance => exact absurd (ok_of_idle result).1 pending
  | leave core =>
      unfold ModalServer.step at result
      dsimp only at result
      split at result
      next => cases result
      next =>
        cases result
        exact progress
  | migrate thread =>
      cases result
      exact (agrees_releaseThread server thread).progress rfl progress
  | run running =>
      cases result
      exact progress
  | enable elapsed =>
      cases result
      exact fun _ => ⟨bound, fun enabled => absurd (fits enabled) pending⟩
  | disable elapsed =>
      cases result
      exact fun _ => ⟨bound, fun enabled => absurd (fits enabled).1 pending⟩
  | periodic elapsed =>
      unfold ModalServer.step at result
      dsimp only at result
      split at result
      next =>
        cases result
        refine fun _ => ⟨bound, fun enabled => ?_⟩
        obtain ⟨core, waits, low, time⟩ := waiting enabled
        exact ⟨core, waits, low, Nat.le_trans time (Nat.le_max_left _ _)⟩
      next => cases result
  | setDisable disable =>
      cases result
      cases disable with
      | true =>
          refine fun _ => ⟨bound, fun enabled => ?_⟩
          cases enabled
      | false =>
          cases before : server.disable with
          | false => exact fun _ => ⟨bound, fun _ => waiting before⟩
          | true => exact absurd (fits rfl before).1 pending
  | hooksCalled hookResult =>
      unfold ModalServer.step at result
      dsimp only at result
      split at result
      next => cases result
      next release same => exact progress.hooksCalled positive same result

/-- A release that `signal` or `synchronize` started has a bound on its
rounds. -/
theorem rounds_bounded (reached : Reached Fits server)
    (pending : server.release = some release)
    (single : release.untilRelease = false) :
    ∃ bound, ∀ count later, Rounds server count later →
      later.release ≠ none → count ≤ bound := by
  have start : ∃ limit, Progress limit 0 server := by
    cases enabled : server.disable with
    | true =>
        refine ⟨0, fun _ => ⟨Nat.le_refl _, fun impossible => ?_⟩⟩
        rw [enabled] at impossible
        cases impossible
    | false =>
        obtain ⟨core, waits⟩ :=
          reached.inv.waits release pending single enabled
        exact ⟨server.localClock core, fun _ => ⟨Nat.zero_le _, fun _ =>
          ⟨core, waits, Nat.le_refl _, Nat.zero_le _⟩⟩⟩
  obtain ⟨limit, start⟩ := start
  refine ⟨limit, ?_⟩
  intro count later rounds more
  have progress : Progress limit count later := by
    clear more
    induction rounds with
    | refl => exact start
    | step rounds pending fits result ih =>
        exact ih.step (rounds.reached reached).inv.positive
          pending fits result
  exact (progress more).1

/-- In every run that fits, the cores that do not wait are below the barrier
time in detailed mode.  A core that is counted as having arrived waits, a
barrier that is reached has a waiting core, and a release of it ends. -/
theorem barrier_survives_modes (reached : Reached Fits server) :
    (server.disable = false → server.fastforward = false →
      ∀ core, server.acquire core = false →
        server.localClock core < server.nextBarrierTime) ∧
    (server.disable = false → server.fastforward = false →
      ∀ core, server.Counted core → server.acquire core = true) ∧
    (server.disable = false → server.isBarrierReached = true →
      ∃ core, server.acquire core = true) ∧
    ∀ release, server.release = some release →
      release.untilRelease = false →
      (server.disable = false → ∃ core, server.acquire core = true) ∧
      ∃ bound, ∀ count later, Rounds server count later →
        later.release ≠ none → count ≤ bound := by
  have inv := reached.inv
  refine ⟨inv.below, ?_, inv.below.waits_of_reached, ?_⟩
  · exact fun enabled detailed core counted =>
      inv.below.waits_of_counted enabled detailed counted
  · exact fun release pending single =>
      ⟨inv.waits release pending single, rounds_bounded reached pending single⟩

/-- The threads 0 and 1 run on the cores 0 and 1. -/
def bothRun (core : Fin 2) : Option ThreadId :=
  some core.val

/-- The elapsed times when fast-forward mode ends: core 0 waits since 25, and
core 1 is at the given time. -/
def elapsedAtSwitch (running : Time) (core : Fin 2) : Option Time :=
  some (if core.val = 0 then 25 else running)

/-- Core 0 enters the barrier in fast-forward mode, and the switch to detailed
mode sets the barrier time to its clock: it is taken out as if it had arrived.
When thread 1 stalls, the barrier is released without a waiting core. -/
theorem released_without_waiting :
    ∃ server : ModalServer 2, Reached (fun _ _ => True) server ∧
      server.disable = false ∧ server.fastforward = false ∧
      server.acquire 0 = false ∧
      server.nextBarrierTime ≤ server.localClock 0 ∧
      (∃ release, server.release = some release ∧
        release.untilRelease = false) ∧
      ∀ core, server.acquire core = false := by
  have started : Reached (fun _ _ => True)
      (initial 2 10 1 fun _ => none) := .start 1 _ (by decide)
  have placed := @Reached.step 2 _ _ _ (.run bothRun) started trivial rfl
  have fast := @Reached.step 2 _ _ _ (.enable fun _ => 0) placed trivial rfl
  have entered := @Reached.step 2 _ _ _ (.synchronize 0 0 25) fast trivial rfl
  have detailed := @Reached.step 2 _ _ _ (.disable (elapsedAtSwitch 5))
    entered trivial rfl
  have stalled := @Reached.step 2 _ _ _
    (.run fun core => if core = 0 then some 0 else none) detailed trivial rfl
  have released := @Reached.step 2 _ _ _ (.stop 1) stalled trivial rfl
  exact ⟨_, released, rfl, rfl, rfl, by decide, ⟨_, rfl, rfl⟩, fun _ => rfl⟩

/-- Core 1 is past the core that waits when the mode changes.  Then both cores
enter the barrier. -/
theorem barrier_survives_modes_switched :
    ∃ server : ModalServer 2, Reached Fits server ∧
      server.fastforward = false ∧ server.nextBarrierTime = 26 ∧
      (∀ core, server.Counted core → server.acquire core = true) ∧
      ∃ release bound, server.release = some release ∧
        ∀ count later, Rounds server count later →
          later.release ≠ none → count ≤ bound := by
  have started : Reached Fits (initial 2 10 1 fun _ => none) :=
    .start 1 _ (by decide)
  have placed := @Reached.step 2 _ _ _ (.run bothRun) started trivial rfl
  have fast := @Reached.step 2 _ _ _ (.enable fun _ => 0) placed
    (fun _ => rfl) rfl
  have entered := @Reached.step 2 _ _ _ (.synchronize 0 0 25) fast trivial rfl
  have detailed := @Reached.step 2 _ _ _ (.disable (elapsedAtSwitch 26))
    entered (fun _ => ⟨rfl, by decide⟩) rfl
  have ahead := @Reached.step 2 _ _ _ (.synchronize 0 0 30) detailed trivial rfl
  have released := @Reached.step 2 _ _ _ (.synchronize 1 1 27) ahead trivial rfl
  obtain ⟨_, counted, _, ends⟩ := barrier_survives_modes released
  obtain ⟨_, bound, bounded⟩ := ends _ rfl rfl
  exact ⟨_, released, rfl, rfl, counted rfl rfl, _, bound, rfl, bounded⟩

end ModalServer

end ChipletSniper.Threads
