import ChipletSniper.Library.Runs
import ChipletSniper.Threads.ThreadManager

/-!
# Waiting for a thread to start and to exit

The life cycle of threads in the thread manager. Start-waiters and joiners
share the `waiter` slot of the thread they wait for. The scheduler may take a
core from a thread at any time, and a joiner that is resumed without a core
stalls once more until it gets one.
-/

namespace ChipletSniper.Threads

open Function

/-- A call that waits for another thread. -/
inductive JoinCall where
  | waitForThreadStart (target : ThreadId)
  | joinThread (target : ThreadId)
  deriving DecidableEq, Repr

/-- The thread a call waits for. -/
def JoinCall.target : JoinCall → ThreadId
  | .waitForThreadStart target => target
  | .joinThread target => target

/-- The thread manager, with `m_thread_state` field by field. -/
structure JoinSystem where
  /-- `m_threads.size()`. -/
  count : Nat
  status : ThreadId → CoreState
  stalledReason : ThreadId → StallType
  waiter : ThreadId → Option ThreadId
  /-- `Thread::getCore`. -/
  core : ThreadId → Option Nat
  wakeupTime : ThreadId → Time
  /-- The thread is blocked in `Thread::wait`. -/
  blocked : ThreadId → Bool
  pending : ThreadId → Option JoinCall
  /-- How often the thread was signalled since it made its call. Written and
  never read. -/
  signals : ThreadId → Nat
  /-- How often the thread stalled in its call for want of a core. Written and
  never read. -/
  unscheduled : ThreadId → Nat

namespace JoinSystem

variable (system : JoinSystem)

def setStatus (thread : ThreadId) (status : CoreState) : JoinSystem :=
  { system with status := update system.status thread status }

def setWaiter (thread : ThreadId) (waiter : Option ThreadId) : JoinSystem :=
  { system with waiter := update system.waiter thread waiter }

def setCore (thread : ThreadId) (core : Option Nat) : JoinSystem :=
  { system with core := update system.core thread core }

/-- `stallThread_async`. -/
def stallThreadAsync (thread : ThreadId) (reason : StallType) : JoinSystem :=
  { system with
    status := update system.status thread .stalled
    stalledReason := update system.stalledReason thread reason }

/-- `Thread::wait` up to the point where the thread blocks. -/
def wait (thread : ThreadId) : JoinSystem :=
  { system with blocked := update system.blocked thread true }

def stallThread (thread : ThreadId) (reason : StallType) : JoinSystem :=
  (system.stallThreadAsync thread reason).wait thread

/-- `Thread::signal`. -/
def signal (thread : ThreadId) (time : Time) : JoinSystem :=
  { system with
    wakeupTime := update system.wakeupTime thread time
    blocked := update system.blocked thread false
    signals := update system.signals thread
      (system.signals thread + 1) }

def resumeThread (thread : ThreadId) (time : Time) : JoinSystem :=
  (system.signal thread time).setStatus thread .running

/-- A thread is in a call that has not returned. -/
def enter (thread : ThreadId) (call : JoinCall) : JoinSystem :=
  { system with
    pending := update system.pending thread (some call)
    signals := update system.signals thread 0
    unscheduled := update system.unscheduled thread 0 }

/-- `createThread_unlocked`, with the core that the scheduler gives. -/
def createThread (core : Option Nat) : JoinSystem :=
  { system with
    count := system.count + 1
    status := update system.status system.count .initializing
    waiter := update system.waiter system.count none
    core := update system.core system.count core }

/-- The state `onThreadStart` gives a thread: without a core it is stalled
until it is scheduled. -/
def started (thread : ThreadId) : JoinSystem :=
  if system.core thread = none then
    system.stallThreadAsync thread .unscheduled
  else
    system.setStatus thread .running

/-- `onThreadStart`, after the moves of the start hook. -/
def onThreadStart (thread : ThreadId) (time : Time) : JoinSystem :=
  match system.waiter thread with
  | none => system.started thread
  | some waiter =>
      ((system.started thread).signal waiter time).setWaiter thread none

def wakeUpWaiter (thread : ThreadId) (time : Time) : JoinSystem :=
  match system.waiter thread with
  | none => system
  | some waiter => (system.resumeThread waiter time).setWaiter thread none

/-- `onThreadExit`; the assertions on the core and the status stop the
simulation. -/
def onThreadExit (thread : ThreadId) (time : Time) : Option JoinSystem :=
  if system.core thread ≠ none ∧ system.status thread = .running then
    some (((system.setStatus thread .idle).wakeUpWaiter thread time).setCore
      thread none)
  else
    none

/-- `waitForThreadStart`, with whether the call has returned. -/
def waitForThreadStart (thread target : ThreadId) :
    Option (JoinSystem × Bool) :=
  if system.status target = .initializing then
    if system.waiter target = none then
      some (((system.setWaiter target (some thread)).enter thread
        (.waitForThreadStart target)).wait thread, false)
    else
      none
  else
    some (system, true)

/-- `joinThread` up to the point where it stalls, with whether the call has
returned. The caller is on a core, whose time is read. -/
def joinThread (thread target : ThreadId) : Option (JoinSystem × Bool) :=
  if system.status target = .idle then
    some (system, true)
  else if system.core thread ≠ none ∧ system.waiter target = none then
    some (((system.setWaiter target (some thread)).enter thread
      (.joinThread target)).stallThread thread .join, false)
  else
    none

/-- The loop of `Thread::reschedule`, with whether it has ended. A core that
has changed only adds a pseudo-instruction. -/
def reschedule (thread : ThreadId) : JoinSystem × Bool :=
  if system.core thread = none then
    ({ system.stallThread thread .unscheduled with
        unscheduled := update system.unscheduled thread
          (system.unscheduled thread + 1) }, false)
  else
    (system, true)

/-- What a thread does when it gets out of `Thread::wait`, with whether its
call has returned. -/
def goOn (thread : ThreadId) : JoinCall → JoinSystem × Bool
  | .waitForThreadStart _ => (system, true)
  | .joinThread _ => system.reschedule thread

def moveThread (thread : ThreadId) (core : Option Nat) (time : Time) :
    JoinSystem :=
  if core ≠ none ∧ system.core thread = none ∧
      system.status thread = .stalled ∧
      system.stalledReason thread = .unscheduled then
    (system.resumeThread thread time).setCore thread core
  else
    system.setCore thread core

inductive Action where
  | createThread (core : Option Nat)
  | onThreadStart (thread : ThreadId) (time : Time)
  | moveThread (thread : ThreadId) (core : Option Nat) (time : Time)
  /-- `Thread::reschedule` outside every call. -/
  | reschedule (thread : ThreadId)
  | waitForThreadStart (thread target : ThreadId)
  | joinThread (thread target : ThreadId)
  | onThreadExit (thread : ThreadId) (time : Time)
  /-- A signalled thread goes on in its call. -/
  | leave (thread : ThreadId)
  deriving DecidableEq, Repr

/-- A thread outside every call that can make one. -/
def Active (thread : ThreadId) : Prop :=
  system.status thread = .running ∧ system.pending thread = none

instance (thread : ThreadId) : Decidable (system.Active thread) :=
  inferInstanceAs (Decidable (_ ∧ _))

/-- A call and the state it leads to; a call that blocks has not returned. -/
def called (thread : ThreadId) (call : JoinCall) :
    JoinSystem × Bool → JoinSystem × Option (ThreadId × JoinCall)
  | (next, returned) => (next, if returned then some (thread, call) else none)

/-- A thread goes on in its call, and is out of it if the call returns. -/
def leave (thread : ThreadId) (call : JoinCall) :
    JoinSystem × Option (ThreadId × JoinCall) :=
  match system.goOn thread call with
  | (next, true) =>
      ({ next with pending := update next.pending thread none },
        some (thread, call))
  | (next, false) => (next, none)

/-- A step, and the call that returned in it. -/
def step : Action → Option (JoinSystem × Option (ThreadId × JoinCall))
  | .createThread core => some (system.createThread core, none)
  | .onThreadStart thread time =>
      if system.status thread = .initializing then
        some (system.onThreadStart thread time, none)
      else
        none
  | .moveThread thread core time =>
      some (system.moveThread thread core time, none)
  | .reschedule thread =>
      if system.Active thread then
        some ((system.reschedule thread).1, none)
      else
        none
  | .waitForThreadStart thread target =>
      if system.Active thread ∧ target < system.count then
        (system.waitForThreadStart thread target).map
          (called thread (.waitForThreadStart target))
      else
        none
  | .joinThread thread target =>
      if system.Active thread ∧ target < system.count then
        (system.joinThread thread target).map
          (called thread (.joinThread target))
      else
        none
  | .onThreadExit thread time =>
      if system.pending thread = none then
        (system.onThreadExit thread time).map (·, none)
      else
        none
  | .leave thread =>
      if system.blocked thread then
        none
      else
        (system.pending thread).map (system.leave thread)

/-- No thread yet. -/
def initial : JoinSystem where
  count := 0
  status := fun _ => .idle
  stalledReason := fun _ => .unscheduled
  waiter := fun _ => none
  core := fun _ => none
  wakeupTime := fun _ => 0
  blocked := fun _ => false
  pending := fun _ => none
  signals := fun _ => 0
  unscheduled := fun _ => 0

variable {system}

/-! ## The invariant -/

/-- Where a thread inside a call is. -/
inductive Served (system : JoinSystem) (thread : ThreadId) : JoinCall → Prop
  | starting {target : ThreadId} :
      system.status thread = .running → system.blocked thread = true →
      system.status target = .initializing →
      system.waiter target = some thread →
      Served system thread (.waitForThreadStart target)
  | started {target : ThreadId} :
      system.status thread = .running → system.blocked thread = false →
      system.status target ≠ .initializing →
      Served system thread (.waitForThreadStart target)
  | joining {target : ThreadId} :
      system.status thread = .stalled →
      system.stalledReason thread = .join → system.blocked thread = true →
      system.status target ≠ .initializing ∧ system.status target ≠ .idle →
      system.waiter target = some thread →
      system.signals thread = 0 ∧ system.unscheduled thread = 0 →
      Served system thread (.joinThread target)
  | joined {target : ThreadId} :
      system.status thread = .running → system.blocked thread = false →
      system.status target = .idle →
      system.signals thread = system.unscheduled thread + 1 →
      Served system thread (.joinThread target)
  /-- The target has exited, and the joiner waits for a core. -/
  | unscheduled {target : ThreadId} :
      system.status thread = .stalled →
      system.stalledReason thread = .unscheduled →
      system.blocked thread = true → system.status target = .idle →
      system.signals thread = system.unscheduled thread →
      Served system thread (.joinThread target)

structure Inv (system : JoinSystem) : Prop where
  fresh : ∀ {thread}, system.count ≤ thread →
    system.status thread = .idle ∧ system.waiter thread = none
  served : ∀ {thread call}, system.pending thread = some call →
    system.Served thread call ∧ call.target < system.count
  waits : ∀ {target thread}, system.waiter target = some thread →
    ∃ call, system.pending thread = some call ∧ call.target = target ∧
      system.blocked thread = true ∧ system.status target ≠ .idle

theorem inv_initial : initial.Inv where
  fresh := fun _ => ⟨rfl, rfl⟩
  served := fun impossible => by cases impossible
  waits := fun impossible => by cases impossible

/-- Nothing changes for a thread itself. -/
structure Same (thread : ThreadId) (before after : JoinSystem) : Prop where
  status : after.status thread = before.status thread
  reason : after.stalledReason thread = before.stalledReason thread
  blocked : after.blocked thread = before.blocked thread
  signals : after.signals thread = before.signals thread
  unscheduled : after.unscheduled thread = before.unscheduled thread

/-- A thread has started and has not exited. -/
def Alive (system : JoinSystem) (thread : ThreadId) : Prop :=
  system.status thread ≠ .initializing ∧ system.status thread ≠ .idle

/-- The target of a call starts and exits when the other state says so. -/
structure Stage (target : ThreadId) (before after : JoinSystem) : Prop where
  starting : after.status target = .initializing ↔
    before.status target = .initializing
  exited : after.status target = .idle ↔ before.status target = .idle

theorem Stage.of_eq {target : ThreadId} {next : JoinSystem}
    (same : next.status target = system.status target) :
    Stage target system next := by
  constructor <;> rw [same]

theorem Stage.of_alive {target : ThreadId} {next : JoinSystem}
    (before : system.Alive target) (after : next.Alive target) :
    Stage target system next :=
  ⟨iff_of_false after.1 before.1, iff_of_false after.2 before.2⟩

/-- What a thread inside a call depends on. -/
theorem Served.frame {next : JoinSystem} {thread : ThreadId} {call : JoinCall}
    (served : system.Served thread call) (same : Same thread system next)
    (stage : Stage call.target system next)
    (waiter : system.waiter call.target = some thread →
      next.waiter call.target = some thread) :
    next.Served thread call := by
  cases served with
  | starting running blocked target waits =>
      exact .starting (same.status.trans running)
        (same.blocked.trans blocked) (stage.starting.mpr target) (waiter waits)
  | started running blocked target =>
      exact .started (same.status.trans running)
        (same.blocked.trans blocked) fun starts =>
          target (stage.starting.mp starts)
  | joining stalled reason blocked target waits counts =>
      refine .joining (same.status.trans stalled) (same.reason.trans reason)
        (same.blocked.trans blocked) ?_ (waiter waits) ?_
      · exact ⟨fun starts => target.1 (stage.starting.mp starts),
          fun exits => target.2 (stage.exited.mp exits)⟩
      · rw [same.signals, same.unscheduled]
        exact counts
  | joined running blocked target counts =>
      refine .joined (same.status.trans running) (same.blocked.trans blocked)
        (stage.exited.mpr target) ?_
      rw [same.signals, same.unscheduled]
      exact counts
  | unscheduled stalled reason blocked target counts =>
      refine .unscheduled (same.status.trans stalled)
        (same.reason.trans reason) (same.blocked.trans blocked)
        (stage.exited.mpr target) ?_
      rw [same.signals, same.unscheduled]
      exact counts

/-- A thread inside a call has started and has not exited. -/
theorem Served.alive {thread : ThreadId} {call : JoinCall}
    (served : system.Served thread call) : system.Alive thread := by
  unfold Alive
  cases served with
  | starting running => simp [running]
  | started running => simp [running]
  | joining stalled => simp [stalled]
  | joined running => simp [running]
  | unscheduled stalled => simp [stalled]

theorem Inv.inside (inv : system.Inv) {thread : ThreadId}
    (created : system.status thread ≠ .idle) :
    thread < system.count := by
  by_contra above
  exact created (inv.fresh (Nat.le_of_not_lt above)).1

theorem Inv.createThread (inv : system.Inv) (core : Option Nat) :
    (system.createThread core).Inv := by
  have new := inv.fresh (Nat.le_refl system.count)
  refine ⟨?_, ?_, ?_⟩
  · intro thread above
    have above : system.count < thread := above
    have before := inv.fresh (Nat.le_of_lt above)
    simpa [JoinSystem.createThread, Nat.ne_of_gt above] using before
  · intro thread call called
    obtain ⟨served, inside⟩ := inv.served called
    have away : call.target ≠ system.count := Nat.ne_of_lt inside
    have apart : thread ≠ system.count := by
      rintro rfl
      exact served.alive.2 new.1
    refine ⟨served.frame ⟨?_, rfl, rfl, rfl, rfl⟩ (.of_eq ?_) fun waits => ?_,
      Nat.lt_succ_of_lt inside⟩
    · simp [JoinSystem.createThread, apart]
    · simp [JoinSystem.createThread, away]
    · simpa [JoinSystem.createThread, away] using waits
  · intro target thread waiting
    by_cases same : target = system.count
    · simp [JoinSystem.createThread, same] at waiting
    · simp only [JoinSystem.createThread, ne_eq, same, not_false_iff,
        update_of_ne] at waiting ⊢
      exact inv.waits waiting

/-! ### Steps of one thread -/

/-- Only one thread changes, which has started and does not exit. -/
structure Touches (thread : ThreadId) (before after : JoinSystem) : Prop where
  count : after.count = before.count
  waiter : after.waiter = before.waiter
  pending : ∀ other ≠ thread, after.pending other = before.pending other
  others : ∀ other ≠ thread, Same other before after
  alive : before.Alive thread
  stays : after.Alive thread

theorem Inv.touches (inv : system.Inv) (thread : ThreadId) {next : JoinSystem}
    (touches : Touches thread system next)
    (unasked : ∀ target, system.waiter target ≠ some thread)
    (served : ∀ {call}, next.pending thread = some call →
      next.Served thread call ∧ call.target < system.count) :
    next.Inv := by
  have stage : ∀ target, Stage target system next := by
    intro target
    by_cases here : target = thread
    · exact here ▸ .of_alive touches.alive touches.stays
    · exact .of_eq (touches.others target here).status
  refine ⟨?_, ?_, ?_⟩
  · intro other above
    rw [touches.count] at above
    have different : other ≠ thread :=
      Nat.ne_of_gt (Nat.lt_of_lt_of_le (inv.inside touches.alive.2) above)
    rw [(touches.others other different).status, touches.waiter]
    exact inv.fresh above
  · intro other call called
    rw [touches.count]
    by_cases here : other = thread
    · subst here
      exact served called
    · rw [touches.pending other here] at called
      obtain ⟨before, created⟩ := inv.served called
      refine ⟨before.frame (touches.others other here) (stage _) ?_, created⟩
      rw [touches.waiter]
      exact id
  · intro target other waiting
    rw [touches.waiter] at waiting
    have different : other ≠ thread := by
      rintro rfl
      exact unasked target waiting
    obtain ⟨call, called, wants, blocked, exits⟩ := inv.waits waiting
    refine ⟨call, ?_, wants, ?_, fun idle => exits ?_⟩
    · rwa [touches.pending other different]
    · rwa [(touches.others other different).blocked]
    · exact (stage target).exited.mp idle

/-- A thread that was signalled, or whose target has exited, is no waiter. -/
theorem Inv.unasked (inv : system.Inv) {thread : ThreadId} {call : JoinCall}
    (called : system.pending thread = some call)
    (told : system.blocked thread = false ∨ system.status call.target = .idle)
    (target : ThreadId) :
    system.waiter target ≠ some thread := by
  intro waits
  obtain ⟨asked, pended, rfl, blocked, alive⟩ := inv.waits waits
  obtain rfl : call = asked := Option.some.inj (called.symm.trans pended)
  rcases told with signalled | exited
  · rw [signalled] at blocked
    cases blocked
  · exact alive exited

theorem Inv.setCore (inv : system.Inv) (thread : ThreadId)
    (core : Option Nat) :
    (system.setCore thread core).Inv where
  fresh := inv.fresh
  served := fun called =>
    ⟨(inv.served called).1.frame ⟨rfl, rfl, rfl, rfl, rfl⟩ (.of_eq rfl) id,
      (inv.served called).2⟩
  waits := inv.waits

theorem Inv.moveThread (inv : system.Inv) (thread : ThreadId)
    (core : Option Nat) (time : Time) :
    (system.moveThread thread core time).Inv := by
  unfold JoinSystem.moveThread
  split
  next unscheduled =>
    obtain ⟨-, -, stalled, reason⟩ := unscheduled
    refine Inv.setCore ?_ thread core
    have alive : system.Alive thread := by simp [Alive, stalled]
    have waiting : ∀ {call}, system.pending thread = some call →
        (system.resumeThread thread time).Served thread call ∧
          system.status call.target = .idle := by
      intro call called
      cases (inv.served called).1 with
      | starting running =>
          exact absurd (stalled.symm.trans running) (by decide)
      | started running => exact absurd (stalled.symm.trans running) (by decide)
      | joining _ join => exact absurd (reason.symm.trans join) (by decide)
      | joined running => exact absurd (stalled.symm.trans running) (by decide)
      | @unscheduled target _ _ _ exited counts =>
          have apart : target ≠ thread := by
            rintro rfl
            exact alive.2 exited
          refine ⟨.joined ?_ ?_ ?_ ?_, exited⟩ <;>
            simp [resumeThread, setStatus, signal, apart, exited, counts]
    refine inv.touches thread
      ⟨rfl, rfl, fun _ _ => rfl, ?_, alive, ?_⟩ ?_ ?_
    · intro other different
      constructor <;> simp [resumeThread, setStatus, signal, different]
    · simp [Alive, resumeThread, setStatus]
    · intro target waits
      obtain ⟨call, called, -, -, -⟩ := inv.waits waits
      exact inv.unasked called (.inr (waiting called).2) target waits
    · intro call called
      exact ⟨(waiting called).1, (inv.served called).2⟩
  · exact inv.setCore thread core

/-! ### The events calls wait for -/

/-- A thread reaches a new state and wakes its waiter, if it has one. -/
structure Event (thread : ThreadId) (before after : JoinSystem) : Prop where
  count : after.count = before.count
  pending : after.pending = before.pending
  waiter : after.waiter = update before.waiter thread none
  others : ∀ other, other ≠ thread → before.waiter thread ≠ some other →
    Same other before after
  woken : ∀ other, before.waiter thread = some other → after.Alive other

/-- A thread outside every call is none of those in a call. -/
theorem ne_of_outside {thread other : ThreadId} {call : JoinCall}
    (outside : system.pending thread = none)
    (called : system.pending other = some call) :
    other ≠ thread := by
  rintro rfl
  rw [outside] at called
  cases called

theorem Inv.event (inv : system.Inv) {next : JoinSystem} {thread : ThreadId}
    (event : Event thread system next) (created : thread < system.count)
    (outside : system.pending thread = none)
    (served : ∀ {other call}, system.pending other = some call →
      call.target = thread → next.Served other call) :
    next.Inv := by
  have apart : ∀ {other call}, system.pending other = some call →
      other ≠ thread := ne_of_outside outside
  -- the woken thread may itself be the target of another call
  have stage : ∀ {other}, other ≠ thread → Stage other system next := by
    intro other different
    by_cases woken : system.waiter thread = some other
    · obtain ⟨call, called, -⟩ := inv.waits woken
      exact .of_alive (inv.served called).1.alive (event.woken other woken)
    · exact .of_eq (event.others other different woken).status
  have unasked : ∀ {other call}, system.pending other = some call →
      call.target ≠ thread → system.waiter thread ≠ some other := by
    intro other call called target waits
    obtain ⟨asked, pended, same, -⟩ := inv.waits waits
    rw [called] at pended
    cases pended
    exact target same
  refine ⟨?_, ?_, ?_⟩
  · intro other above
    rw [event.count] at above
    have different : other ≠ thread :=
      Nat.ne_of_gt (Nat.lt_of_lt_of_le created above)
    rw [(stage different).exited, event.waiter,
      update_of_ne different]
    exact inv.fresh above
  · intro other call called
    rw [event.pending] at called
    refine ⟨?_, event.count.symm ▸ (inv.served called).2⟩
    by_cases target : call.target = thread
    · exact served called target
    · refine (inv.served called).1.frame
        (event.others other (apart called) (unasked called target))
        (stage target) ?_
      rw [event.waiter, update_of_ne target]
      exact id
  · intro target other waiting
    rw [event.waiter] at waiting
    by_cases here : target = thread
    · subst here
      rw [update_self] at waiting
      cases waiting
    · rw [update_of_ne here] at waiting
      obtain ⟨call, called, rfl, blocked, alive⟩ := inv.waits waiting
      refine ⟨call, event.pending ▸ called, rfl, ?_, fun idle => alive ?_⟩
      · rwa [(event.others other (apart called) (unasked called here)).blocked]
      · exact (stage here).exited.mp idle

theorem same_started {thread other : ThreadId} (different : other ≠ thread) :
    Same other system (system.started thread) := by
  unfold started
  split <;> constructor <;> simp [stallThreadAsync, setStatus, different]

theorem alive_started (thread : ThreadId) :
    (system.started thread).Alive thread := by
  unfold started
  split <;> simp [Alive, stallThreadAsync, setStatus]

theorem Inv.onThreadStart (inv : system.Inv) {thread : ThreadId}
    (starting : system.status thread = .initializing) (time : Time) :
    (system.onThreadStart thread time).Inv := by
  have outside : system.pending thread = none := by
    cases called : system.pending thread with
    | none => rfl
    | some call => exact absurd starting (inv.served called).1.alive.1
  -- whoever waits for a thread that has not started is its waiter
  have starter : ∀ {other call}, system.pending other = some call →
      call.target = thread → other ≠ thread ∧
        system.waiter thread = some other ∧
        call = .waitForThreadStart thread ∧
        system.status other = .running := by
    rintro other call called rfl
    have apart : other ≠ call.target := fun same =>
      (inv.served called).1.alive.1 (same ▸ starting)
    cases (inv.served called).1 with
    | starting running _ _ waits => exact ⟨apart, waits, rfl, running⟩
    | started _ _ target => exact absurd starting target
    | joining _ _ _ target => exact absurd starting target.1
    | joined _ _ exited => exact absurd (starting.symm.trans exited) (by decide)
    | unscheduled _ _ _ exited =>
        exact absurd (starting.symm.trans exited) (by decide)
  have kept : (system.started thread).waiter = system.waiter ∧
      (system.started thread).count = system.count ∧
      (system.started thread).pending = system.pending := by
    unfold started
    split <;> exact ⟨rfl, rfl, rfl⟩
  have inside : thread < system.count := inv.inside (by simp [starting])
  unfold JoinSystem.onThreadStart
  split
  next free =>
    refine inv.event ⟨kept.2.1, kept.2.2, ?_, fun _ different _ =>
      same_started different, ?_⟩ inside outside ?_
    · rw [kept.1, update_eq_self_iff.mpr free.symm]
    · rw [free]
      exact fun _ impossible => by cases impossible
    · intro other call called target
      rw [(starter called target).2.1] at free
      cases free
  next waiter waits =>
    obtain ⟨asked, pended, target, -⟩ := inv.waits waits
    obtain ⟨apart, -, -, running⟩ := starter pended target
    have awake : (system.started thread).status waiter = .running :=
      (same_started apart).status.trans running
    refine inv.event ⟨kept.2.1, kept.2.2, congrArg (update · _ _)
      kept.1, ?_, ?_⟩ inside outside ?_
    · intro other different unasked
      have before : Same other system (system.started thread) :=
        same_started different
      have here : other ≠ waiter := fun same => unasked (same ▸ waits)
      exact ⟨before.status, before.reason,
        (update_of_ne here _ _).trans before.blocked,
        (update_of_ne here _ _).trans before.signals,
        before.unscheduled⟩
    · intro other woken
      obtain rfl : waiter = other := Option.some.inj (waits.symm.trans woken)
      simp [Alive, signal, setWaiter, awake]
    · intro other call called wants
      obtain ⟨-, mine, rfl, -⟩ := starter called wants
      obtain rfl : waiter = other := Option.some.inj (waits.symm.trans mine)
      exact .started awake (update_self ..) (alive_started thread).1

/-- Whoever waits for a thread that runs is its joiner, or has been told that
it started. -/
theorem Inv.joiner (inv : system.Inv) {thread other : ThreadId}
    {call : JoinCall} (running : system.status thread = .running)
    (called : system.pending other = some call)
    (waits : call.target = thread) :
    (system.waiter thread = some other ∧ call = .joinThread thread ∧
      system.signals other = 0 ∧ system.unscheduled other = 0) ∨
    (call = .waitForThreadStart thread ∧ system.status other = .running ∧
      system.blocked other = false ∧ system.waiter thread ≠ some other) := by
  subst waits
  cases (inv.served called).1 with
  | starting _ _ starts => exact absurd (running.symm.trans starts) (by decide)
  | started awake told _ =>
      exact .inr ⟨rfl, awake, told, inv.unasked called (.inl told) _⟩
  | joining _ _ _ _ mine counts => exact .inl ⟨mine, rfl, counts⟩
  | joined _ _ exits => exact absurd (running.symm.trans exits) (by decide)
  | unscheduled _ _ _ exits =>
      exact absurd (running.symm.trans exits) (by decide)

theorem Inv.onThreadExit (inv : system.Inv) {thread : ThreadId} {time : Time}
    {next : JoinSystem} (outside : system.pending thread = none)
    (exited : system.onThreadExit thread time = some next) :
    next.Inv := by
  unfold JoinSystem.onThreadExit at exited
  split at exited
  next able =>
    cases exited
    have running := able.2
    have inside : thread < system.count := inv.inside (by simp [running])
    have apart : ∀ {other call}, system.pending other = some call →
        other ≠ thread := ne_of_outside outside
    refine Inv.setCore ?_ thread none
    unfold wakeUpWaiter
    split
    next free =>
      have free : system.waiter thread = none := free
      refine inv.event ⟨rfl, rfl, ?_, ?_, ?_⟩ inside outside ?_
      · exact (update_eq_self_iff.mpr free.symm).symm
      · intro other different _
        exact ⟨update_of_ne different _ _, rfl, rfl, rfl, rfl⟩
      · rw [free]
        exact fun _ impossible => by cases impossible
      · intro other call called target
        have different := apart called
        rcases inv.joiner running called target with
          ⟨waits, -⟩ | ⟨rfl, awake, told, -⟩
        · rw [waits] at free
          cases free
        · refine .started ?_ told ?_ <;> simp [setStatus, different, awake]
    next waiter waits =>
      have waits : system.waiter thread = some waiter := waits
      obtain ⟨asked, pended, -⟩ := inv.waits waits
      have awakened := apart pended
      refine inv.event ⟨rfl, rfl, rfl, ?_, ?_⟩ inside outside ?_
      · intro other different unasked
        have here : other ≠ waiter := fun same => unasked (same ▸ waits)
        constructor <;>
          simp [resumeThread, signal, setStatus, setWaiter, different, here]
      · intro other woken
        obtain rfl : waiter = other := Option.some.inj (waits.symm.trans woken)
        simp [Alive, resumeThread, setStatus, setWaiter]
      · intro other call called target
        have different := apart called
        rcases inv.joiner running called target with
          ⟨mine, rfl, counts⟩ | ⟨rfl, awake, told, unasked⟩
        · obtain rfl : waiter = other := Option.some.inj (waits.symm.trans mine)
          refine .joined ?_ ?_ ?_ ?_ <;>
            simp [resumeThread, signal, setStatus, setWaiter, awakened.symm,
              counts]
        · have here : other ≠ waiter := fun same => unasked (same ▸ waits)
          refine .started ?_ ?_ ?_ <;>
            simp [resumeThread, signal, setStatus, setWaiter, different, here,
              awakened.symm, awake, told]
  · cases exited

/-! ### Calls -/

/-- A thread blocks in a call as the waiter of its target. -/
structure Blocks (thread : ThreadId) (call : JoinCall)
    (before after : JoinSystem) : Prop where
  count : after.count = before.count
  pending : after.pending =
    update before.pending thread (some call)
  waiter : after.waiter =
    update before.waiter call.target (some thread)
  blocked : after.blocked thread = true
  others : ∀ other ≠ thread, Same other before after

theorem Inv.blocks (inv : system.Inv) {thread : ThreadId} {call : JoinCall}
    {next : JoinSystem} (blocks : Blocks thread call system next)
    (active : system.Active thread) (inside : call.target < system.count)
    (alive : system.status call.target ≠ .idle)
    (free : system.waiter call.target = none)
    (served : next.Served thread call) :
    next.Inv := by
  have caller : thread < system.count := inv.inside (by simp [active.1])
  have apart : ∀ {other pended}, system.pending other = some pended →
      other ≠ thread := ne_of_outside active.2
  -- the caller may be the target of another call
  have stage : ∀ other, Stage other system next := by
    intro other
    by_cases here : other = thread
    · subst here
      exact .of_alive (by simp [Alive, active.1]) served.alive
    · exact .of_eq (blocks.others other here).status
  refine ⟨?_, ?_, ?_⟩
  · intro other above
    rw [blocks.count] at above
    rw [(stage other).exited, blocks.waiter, update_of_ne
      (Nat.ne_of_gt (Nat.lt_of_lt_of_le inside above))]
    exact inv.fresh above
  · intro other pended called
    rw [blocks.pending] at called
    rw [blocks.count]
    by_cases here : other = thread
    · subst here
      rw [update_self] at called
      cases called
      exact ⟨served, inside⟩
    · rw [update_of_ne here] at called
      obtain ⟨before, created⟩ := inv.served called
      refine ⟨before.frame (blocks.others other here) (stage _) ?_, created⟩
      intro waits
      rw [blocks.waiter, update_of_ne]
      · exact waits
      · intro target
        rw [target, free] at waits
        cases waits
  · intro target other waiting
    rw [blocks.waiter] at waiting
    by_cases here : target = call.target
    · subst here
      rw [update_self] at waiting
      cases waiting
      exact ⟨call, by rw [blocks.pending, update_self], rfl,
        blocks.blocked, fun idle => alive ((stage _).exited.mp idle)⟩
    · rw [update_of_ne here] at waiting
      obtain ⟨pended, called, wants, blocked, exits⟩ := inv.waits waiting
      refine ⟨pended, ?_, wants, ?_, fun idle => exits ?_⟩
      · rwa [blocks.pending, update_of_ne (apart called)]
      · rwa [(blocks.others other (apart called)).blocked]
      · exact (stage target).exited.mp idle

theorem Inv.waitForThreadStart (inv : system.Inv) {thread target : ThreadId}
    {next : JoinSystem} {returned : Bool} (active : system.Active thread)
    (inside : target < system.count)
    (asked : system.waitForThreadStart thread target =
      some (next, returned)) :
    next.Inv ∧ (returned = true → next.status target ≠ .initializing) := by
  unfold JoinSystem.waitForThreadStart at asked
  split at asked
  next starting =>
    split at asked
    next free =>
      cases asked
      have blocks : Blocks thread (.waitForThreadStart target) system
          (((system.setWaiter target (some thread)).enter thread
            (.waitForThreadStart target)).wait thread) := by
        refine ⟨rfl, rfl, rfl, update_self .., ?_⟩
        intro other different
        constructor <;> simp [wait, enter, setWaiter, different]
      refine ⟨inv.blocks blocks active inside
        (by simp [JoinCall.target, starting]) free ?_,
        fun impossible => by cases impossible⟩
      exact .starting active.1 blocks.blocked starting
        (update_self ..)
    · cases asked
  next started =>
    cases asked
    exact ⟨inv, fun _ => started⟩

theorem Inv.joinThread (inv : system.Inv) {thread target : ThreadId}
    {next : JoinSystem} {returned : Bool} (active : system.Active thread)
    (inside : target < system.count)
    (started : system.status target ≠ .initializing)
    (asked : system.joinThread thread target = some (next, returned)) :
    next.Inv ∧ (returned = true →
      next.status target = .idle ∧ next.status thread = .running) := by
  unfold JoinSystem.joinThread at asked
  split at asked
  next exited =>
    cases asked
    exact ⟨inv, fun _ => ⟨exited, active.1⟩⟩
  next alive =>
    split at asked
    next able =>
      cases asked
      have blocks : Blocks thread (.joinThread target) system
          (((system.setWaiter target (some thread)).enter thread
            (.joinThread target)).stallThread thread .join) := by
        refine ⟨rfl, rfl, rfl, update_self .., ?_⟩
        intro other different
        constructor <;>
          simp [stallThread, wait, enter, setWaiter, stallThreadAsync,
            different]
      refine ⟨inv.blocks blocks active inside alive able.2 ?_,
        fun impossible => by cases impossible⟩
      refine .joining (update_self ..) (update_self ..)
        blocks.blocked ?_ (update_self ..)
        ⟨update_self .., update_self ..⟩
      -- a thread may join itself
      by_cases itself : target = thread
      · simp [stallThread, wait, enter, setWaiter, stallThreadAsync, itself]
      · simp [stallThread, wait, enter, setWaiter, stallThreadAsync, itself,
          started, alive]
    · cases asked

/-- A thread without a core stalls, outside every call or in a join whose
target has exited. -/
theorem Inv.reschedule (inv : system.Inv) {thread : ThreadId}
    (running : system.status thread = .running)
    (joined : ∀ {call}, system.pending thread = some call →
      ∃ target, call = .joinThread target ∧ system.status target = .idle ∧
        system.signals thread = system.unscheduled thread + 1) :
    (system.reschedule thread).1.Inv := by
  unfold JoinSystem.reschedule
  split
  · refine inv.touches thread
      ⟨rfl, rfl, fun _ _ => rfl, ?_, by simp [Alive, running], ?_⟩ ?_ ?_
    · intro other different
      constructor <;> simp [stallThread, wait, stallThreadAsync, different]
    · simp [Alive, stallThread, wait, stallThreadAsync]
    · intro target waits
      obtain ⟨call, called, -⟩ := inv.waits waits
      obtain ⟨exited, rfl, idle, -⟩ := joined called
      exact inv.unasked called (.inr idle) target waits
    · intro call called
      refine ⟨?_, (inv.served called).2⟩
      obtain ⟨target, rfl, idle, counts⟩ := joined called
      have apart : target ≠ thread := by
        rintro rfl
        exact absurd (running.symm.trans idle) (by decide)
      refine .unscheduled ?_ ?_ ?_ ?_ ?_ <;>
        simp [stallThread, wait, stallThreadAsync, apart, idle, counts]
  · exact inv

/-- A thread that was told of the event its call waits for. -/
theorem Served.told {thread : ThreadId} {call : JoinCall}
    (served : system.Served thread call)
    (signalled : system.blocked thread = false) :
    system.status thread = .running ∧
      (∀ target, call = .waitForThreadStart target →
        system.status target ≠ .initializing) ∧
      ∀ target, call = .joinThread target → system.status target = .idle ∧
        system.signals thread = system.unscheduled thread + 1 := by
  cases served with
  | starting _ blocked =>
      exact absurd (signalled.symm.trans blocked) (by decide)
  | started running _ target =>
      refine ⟨running, ?_, fun _ impossible => by cases impossible⟩
      rintro other ⟨⟩
      exact target
  | joining _ _ blocked =>
      exact absurd (signalled.symm.trans blocked) (by decide)
  | joined running _ target counts =>
      refine ⟨running, ?_, ?_⟩
      · exact fun _ impossible => by cases impossible
      · rintro other ⟨⟩
        exact ⟨target, counts⟩
  | unscheduled _ _ blocked =>
      exact absurd (signalled.symm.trans blocked) (by decide)

theorem Inv.returns (inv : system.Inv) {thread : ThreadId} {call : JoinCall}
    (called : system.pending thread = some call)
    (signalled : system.blocked thread = false) :
    { system with
      pending := update system.pending thread none }.Inv := by
  refine inv.touches thread ⟨rfl, rfl, ?_, ?_, ?_, ?_⟩
    (inv.unasked called (.inl signalled)) ?_
  · exact fun other different => update_of_ne different _ _
  · exact fun other _ => ⟨rfl, rfl, rfl, rfl, rfl⟩
  · exact (inv.served called).1.alive
  · exact (inv.served called).1.alive
  · intro pended impossible
    exact absurd ((update_self ..).symm.trans impossible) (by simp)

/-! ## Runs -/

/-- What the return of a call promises. A joiner is resumed by the exit, and
once more each time it has stalled for want of a core. -/
def Lawful (after : JoinSystem) (action : Action) :
    ThreadId × JoinCall → Prop
  | (thread, .joinThread target) =>
      after.status target = .idle ∧ after.status thread = .running ∧
        (action = .leave thread → after.core thread ≠ none ∧
          after.signals thread = after.unscheduled thread + 1)
  | (_, .waitForThreadStart target) => after.status target ≠ .initializing

theorem Inv.leave (inv : system.Inv) {thread : ThreadId} {call : JoinCall}
    (called : system.pending thread = some call)
    (signalled : system.blocked thread = false) :
    (system.leave thread call).1.Inv ∧
      ∀ returned ∈ (system.leave thread call).2,
        (system.leave thread call).1.Lawful (.leave thread) returned := by
  obtain ⟨running, started, joined⟩ := (inv.served called).1.told signalled
  cases call with
  | waitForThreadStart target =>
      refine ⟨inv.returns called signalled, fun returned member => ?_⟩
      obtain rfl := Option.some.inj member
      exact started target rfl
  | joinThread target =>
      have kept := inv.reschedule running fun again => by
        rw [called] at again
        cases again
        exact ⟨target, rfl, joined target rfl⟩
      unfold JoinSystem.leave goOn
      unfold JoinSystem.reschedule at kept ⊢
      by_cases placed : system.core thread = none
      · rw [if_pos placed] at kept ⊢
        exact ⟨kept, fun _ impossible => by cases impossible⟩
      · rw [if_neg placed]
        refine ⟨inv.returns called signalled, fun returned member => ?_⟩
        obtain rfl := Option.some.inj member
        exact ⟨(joined target rfl).1, running,
          fun _ => ⟨placed, (joined target rfl).2⟩⟩

/-- A join is for a thread that has started. -/
def JoinsStarted (system : JoinSystem) : Action → Prop
  | .joinThread _ target => system.status target ≠ .initializing
  | _ => True

/-- A joiner that goes on is on a core. -/
def OnCore (system : JoinSystem) : Action → Prop
  | .leave thread =>
      (∃ target, system.pending thread = some (.joinThread target)) →
        system.core thread ≠ none
  | _ => True

def Scheduled (system : JoinSystem) (action : Action) : Prop :=
  system.JoinsStarted action ∧ system.OnCore action

theorem Inv.step (inv : system.Inv) {action : Action} {next : JoinSystem}
    {returned : Option (ThreadId × JoinCall)}
    (started : system.JoinsStarted action)
    (stepped : system.step action = some (next, returned)) :
    next.Inv ∧ ∀ call ∈ returned, next.Lawful action call := by
  cases action with
  | createThread core =>
      cases stepped
      exact ⟨inv.createThread core, fun _ impossible => by cases impossible⟩
  | onThreadStart thread time =>
      simp only [JoinSystem.step] at stepped
      split at stepped
      next starting =>
        cases stepped
        exact ⟨inv.onThreadStart starting time,
          fun _ impossible => by cases impossible⟩
      · cases stepped
  | moveThread thread core time =>
      cases stepped
      exact ⟨inv.moveThread thread core time,
        fun _ impossible => by cases impossible⟩
  | reschedule thread =>
      simp only [JoinSystem.step] at stepped
      split at stepped
      next active =>
        cases stepped
        refine ⟨inv.reschedule active.1 fun called => ?_,
          fun _ impossible => by cases impossible⟩
        rw [active.2] at called
        cases called
      · cases stepped
  | waitForThreadStart thread target =>
      simp only [JoinSystem.step] at stepped
      split at stepped
      next able =>
        obtain ⟨⟨after, finished⟩, asked, same⟩ :=
          Option.map_eq_some_iff.mp stepped
        have kept := inv.waitForThreadStart able.1 able.2 asked
        cases same
        refine ⟨kept.1, fun call member => ?_⟩
        cases finished with
        | false => cases member
        | true =>
            cases member
            exact kept.2 rfl
      · cases stepped
  | joinThread thread target =>
      simp only [JoinSystem.step] at stepped
      split at stepped
      next able =>
        obtain ⟨⟨after, finished⟩, asked, same⟩ :=
          Option.map_eq_some_iff.mp stepped
        have kept := inv.joinThread able.1 able.2 started asked
        cases same
        refine ⟨kept.1, fun call member => ?_⟩
        cases finished with
        | false => cases member
        | true =>
            cases member
            exact ⟨(kept.2 rfl).1, (kept.2 rfl).2,
              fun impossible => by cases impossible⟩
      · cases stepped
  | onThreadExit thread time =>
      simp only [JoinSystem.step] at stepped
      split at stepped
      next outside =>
        obtain ⟨after, exited, same⟩ := Option.map_eq_some_iff.mp stepped
        cases same
        exact ⟨inv.onThreadExit outside exited,
          fun _ impossible => by cases impossible⟩
      · cases stepped
  | leave thread =>
      simp only [JoinSystem.step] at stepped
      split at stepped
      · cases stepped
      next signalled =>
        obtain ⟨call, called, same⟩ := Option.map_eq_some_iff.mp stepped
        have kept := inv.leave called (eq_false_of_ne_true signalled)
        rw [same] at kept
        exact kept

/-- No thread has stalled in its call for want of a core. -/
def Placed (system : JoinSystem) : Prop :=
  ∀ {thread call}, system.pending thread = some call →
    system.unscheduled thread = 0

/-- The counts of a thread inside a call are those it had. -/
theorem Placed.of_eq (placed : system.Placed) {next : JoinSystem}
    (pending : next.pending = system.pending)
    (unscheduled : next.unscheduled = system.unscheduled) :
    next.Placed := by
  intro thread call called
  rw [pending] at called
  rw [unscheduled]
  exact placed called

theorem Placed.enter (placed : system.Placed) {thread : ThreadId}
    {call : JoinCall} {next : JoinSystem}
    (pending : next.pending = (system.enter thread call).pending)
    (unscheduled : next.unscheduled = (system.enter thread call).unscheduled) :
    next.Placed := by
  refine Placed.of_eq ?_ pending unscheduled
  intro other pended called
  by_cases here : other = thread
  · subst here
    exact update_self ..
  · simp only [JoinSystem.enter, ne_eq, here, not_false_iff,
      update_of_ne] at called ⊢
    exact placed called

theorem Placed.step (placed : system.Placed) {action : Action}
    {next : JoinSystem} {returned : Option (ThreadId × JoinCall)}
    (onCore : system.OnCore action)
    (stepped : system.step action = some (next, returned)) :
    next.Placed := by
  cases action with
  | createThread core =>
      cases stepped
      exact placed.of_eq rfl rfl
  | onThreadStart thread time =>
      simp only [JoinSystem.step] at stepped
      split at stepped
      · cases stepped
        unfold JoinSystem.onThreadStart JoinSystem.started
        split <;> split <;> exact placed.of_eq rfl rfl
      · cases stepped
  | moveThread thread core time =>
      cases stepped
      unfold JoinSystem.moveThread
      split <;> exact placed.of_eq rfl rfl
  | reschedule thread =>
      simp only [JoinSystem.step] at stepped
      split at stepped
      next active =>
        cases stepped
        unfold JoinSystem.reschedule
        split
        · intro other call called
          have different : other ≠ thread := by
            rintro rfl
            exact absurd (active.2.symm.trans called) (by simp)
          exact (update_of_ne different _ _).trans (placed called)
        · exact placed
      · cases stepped
  | waitForThreadStart thread target =>
      simp only [JoinSystem.step, JoinSystem.waitForThreadStart] at stepped
      split at stepped
      · split at stepped
        · split at stepped
          · cases stepped
            exact placed.enter rfl rfl
          · cases stepped
        · cases stepped
          exact placed
      · cases stepped
  | joinThread thread target =>
      simp only [JoinSystem.step, JoinSystem.joinThread] at stepped
      split at stepped
      · split at stepped
        · cases stepped
          exact placed
        · split at stepped
          · cases stepped
            exact placed.enter rfl rfl
          · cases stepped
      · cases stepped
  | onThreadExit thread time =>
      simp only [JoinSystem.step, JoinSystem.onThreadExit] at stepped
      split at stepped
      · split at stepped
        · cases stepped
          unfold wakeUpWaiter
          split <;> exact placed.of_eq rfl rfl
        · cases stepped
      · cases stepped
  | leave thread =>
      simp only [JoinSystem.step] at stepped
      split at stepped
      · cases stepped
      · obtain ⟨call, called, same⟩ := Option.map_eq_some_iff.mp stepped
        have returns : system.goOn thread call = (system, true) := by
          cases call with
          | waitForThreadStart target => rfl
          | joinThread target => exact if_neg (onCore ⟨target, called⟩)
        rw [JoinSystem.leave, returns] at same
        cases same
        intro other pended again
        refine @placed _ pended ?_
        by_cases here : other = thread
        · subst here
          simp at again
        · simpa [here] using again

/-- A step that meets a rule. -/
def StepUnder (rule : JoinSystem → Action → Prop)
    (before after : JoinSystem) : Prop :=
  ∃ action returned, rule before action ∧
    before.step action = some (after, returned)

theorem reached_mono {rule weaker : JoinSystem → Action → Prop}
    (weaken : ∀ before action, rule before action → weaker before action)
    (reached : Relation.ReflTransGen (StepUnder rule) initial system) :
    Relation.ReflTransGen (StepUnder weaker) initial system := by
  refine Relation.ReflTransGen.mono ?_ _ _ reached
  rintro before after ⟨action, returned, met, stepped⟩
  exact ⟨action, returned, weaken before action met, stepped⟩

/-- A joiner that leaves was signalled before. -/
theorem leave_returned {thread target : ThreadId} {next : JoinSystem}
    (stepped : system.step (.leave thread) =
      some (next, some (thread, .joinThread target))) :
    system.pending thread = some (.joinThread target) ∧
      system.blocked thread = false ∧ next.signals = system.signals := by
  simp only [step] at stepped
  split at stepped
  · cases stepped
  next signalled =>
    obtain ⟨call, called, same⟩ := Option.map_eq_some_iff.mp stepped
    unfold JoinSystem.leave at same
    split at same
    next after goes =>
      cases same
      refine ⟨called, eq_false_of_ne_true signalled, ?_⟩
      simp only [goOn, JoinSystem.reschedule] at goes
      split at goes <;> cases goes
      rfl
    · cases same

/-- While every join is for a thread that has started, joins return after the
exit with the joiner running on a core, start-waits return after the start, and
a joiner is resumed by the exit and once for each stall for want of a core. If
it also has a core whenever it goes on, it is resumed once. -/
theorem join_waits_for_exit (system : JoinSystem)
    (reached : Relation.ReflTransGen (StepUnder JoinsStarted) initial system) :
    (∀ thread target, system.pending thread = some (.joinThread target) →
      system.signals thread = system.unscheduled thread +
        if system.blocked thread then 0 else 1) ∧
    (∀ action next returned, system.JoinsStarted action →
      system.step action = some (next, some returned) →
        next.Lawful action returned) ∧
    (Relation.ReflTransGen (StepUnder Scheduled) initial system →
      (∀ thread target, system.pending thread = some (.joinThread target) →
        system.signals thread = if system.blocked thread then 0 else 1) ∧
      ∀ thread target next, system.step (.leave thread) =
          some (next, some (thread, .joinThread target)) →
        next.signals thread = 1) := by
  have inv : system.Inv := by
    refine Library.invariant_of_reflTransGen Inv ?_ inv_initial reached
    rintro before after inv ⟨action, returned, started, stepped⟩
    exact (inv.step started stepped).1
  have counts : ∀ thread target,
      system.pending thread = some (.joinThread target) →
      system.signals thread = system.unscheduled thread +
        if system.blocked thread then 0 else 1 := by
    intro thread target called
    cases (inv.served called).1 with
    | joining _ _ blocked _ _ counts => simp [blocked, counts]
    | joined _ signalled _ counts => simp [signalled, counts]
    | unscheduled _ _ blocked _ counts => simp [blocked, counts]
  refine ⟨counts, ?_, ?_⟩
  · intro action next returned started stepped
    exact (inv.step started stepped).2 returned rfl
  · intro onCore
    have placed : system.Placed := by
      refine Library.invariant_of_reflTransGen Placed ?_ ?_ onCore
      · rintro before after placed ⟨action, returned, ⟨-, onCore⟩, stepped⟩
        exact placed.step onCore stepped
      · intro thread call impossible
        cases impossible
    have once : ∀ thread target,
        system.pending thread = some (.joinThread target) →
        system.signals thread = if system.blocked thread then 0 else 1 := by
      intro thread target called
      rw [counts thread target called, placed called, Nat.zero_add]
    refine ⟨once, fun thread target next stepped => ?_⟩
    obtain ⟨called, signalled, same⟩ := leave_returned stepped
    rw [same, once thread target called, if_neg (by simp [signalled])]

def run (actions : List Action) (system : JoinSystem) : Option JoinSystem :=
  actions.foldlM (fun system action => (system.step action).map Prod.fst) system

/-- Thread 0 joins thread 1 after its start and loses its core. It leaves after
the exit of thread 1, resumed twice if it stalled for want of a core before it
got one, and once if it got one in time. -/
theorem join_waits_for_exit_started :
    (∃ system next,
      Relation.ReflTransGen (StepUnder JoinsStarted) initial system ∧
      system.step (.leave 0) = some (next, some (0, .joinThread 1)) ∧
      next.Lawful (.leave 0) (0, .joinThread 1) ∧ next.signals 0 = 2) ∧
    ∃ system next,
      Relation.ReflTransGen (StepUnder Scheduled) initial system ∧
      system.step (.leave 0) = some (next, some (0, .joinThread 1)) ∧
      next.signals 0 = 1 := by
  have exits : ∀ rule : JoinSystem → Action → Prop,
      (∀ before action, (∀ thread, action ≠ .leave thread) →
        before.JoinsStarted action → rule before action) →
      ∃ system, run [.createThread (some 0), .onThreadStart 0 0,
          .createThread (some 1), .onThreadStart 1 5, .joinThread 0 1,
          .moveThread 0 none 0, .onThreadExit 1 9] initial = some system ∧
        Relation.ReflTransGen (StepUnder rule) initial system := by
    intro rule met
    refine ⟨_, rfl, ?_⟩
    exact (((((((Relation.ReflTransGen.refl
      |>.tail ⟨.createThread (some 0), none, met _ _ nofun trivial, rfl⟩)
      |>.tail ⟨.onThreadStart 0 0, none, met _ _ nofun trivial, rfl⟩)
      |>.tail ⟨.createThread (some 1), none, met _ _ nofun trivial, rfl⟩)
      |>.tail ⟨.onThreadStart 1 5, none, met _ _ nofun trivial, rfl⟩)
      |>.tail ⟨.joinThread 0 1, none, met _ _ nofun (by
        unfold JoinsStarted; decide), rfl⟩)
      |>.tail ⟨.moveThread 0 none 0, none, met _ _ nofun trivial, rfl⟩)
      |>.tail ⟨.onThreadExit 1 9, none, met _ _ nofun trivial, rfl⟩)
  constructor
  · obtain ⟨exited, ran, path⟩ :=
      exits JoinsStarted fun _ _ _ started => started
    cases ran
    have path := ((path
      |>.tail ⟨.leave 0, none, trivial, rfl⟩)
      |>.tail ⟨.moveThread 0 (some 0) 12, none, trivial, rfl⟩)
    exact ⟨_, _, path, rfl,
      (join_waits_for_exit _ path).2.1 (.leave 0) _ _ trivial rfl, rfl⟩
  · obtain ⟨exited, ran, path⟩ := exits Scheduled (by
      intro before action other started
      refine ⟨started, ?_⟩
      cases action with
      | leave thread => exact absurd rfl (other thread)
      | _ => trivial)
    cases ran
    have path := path.tail
      ⟨.moveThread 0 (some 0) 12, none, ⟨trivial, trivial⟩, rfl⟩
    have started := reached_mono (fun _ _ scheduled => scheduled.1) path
    exact ⟨_, _, path, rfl,
      ((join_waits_for_exit _ started).2.2 path).2 0 1 _ rfl⟩

/-- Thread 0 joins thread 1 before it has started, so the start of thread 1
wakes thread 0 and clears the slot. If thread 0 has lost its core it stalls
again for want of one, and the exit of thread 1 resumes nobody. If it has kept
its core, it leaves the join while it is stalled and thread 1 runs. -/
theorem join_before_start_returns_early :
    (∃ system,
      run [.createThread (some 0), .onThreadStart 0 0, .createThread (some 1),
        .joinThread 0 1, .moveThread 0 none 0, .onThreadStart 1 5, .leave 0,
        .onThreadExit 1 9] initial = some system ∧
      system.pending 0 = some (.joinThread 1) ∧ system.status 1 = .idle ∧
      system.status 0 = .stalled ∧ system.blocked 0 = true ∧
      system.waiter 1 = none ∧
      system.signals 0 ≠ system.unscheduled 0 + 1) ∧
    ∃ system next,
      run [.createThread (some 0), .onThreadStart 0 0, .createThread (some 1),
        .joinThread 0 1, .onThreadStart 1 5] initial = some system ∧
      system.step (.leave 0) = some (next, some (0, .joinThread 1)) ∧
      next.status 1 = .running ∧ next.status 0 = .stalled ∧
      ¬ next.Lawful (.leave 0) (0, .joinThread 1) := by
  refine ⟨⟨_, rfl, rfl, rfl, rfl, rfl, rfl, by decide⟩,
    _, _, rfl, rfl, by decide, by decide, ?_⟩
  rintro ⟨idle, -, -⟩
  revert idle
  decide

end JoinSystem

end ChipletSniper.Threads
