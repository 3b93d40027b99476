import Mathlib.Algebra.Group.Nat.Defs
import Mathlib.Algebra.Ring.Int.Defs
import Mathlib.Data.List.FinRange
import ChipletSniper.Threads.ThreadManager

/-!
# The pinned schedulers

The tables of `SchedulerPinnedBase`, the state of the threads and the pointers
between threads and cores. What a thread number indexes is a total map, whose
default is the entry of a thread that does not exist yet.
-/

namespace ChipletSniper.Threads

open Function

/-- `SchedulerPinnedBase::ThreadInfo`. Whether the affinity is explicit is only
read by `threadGetAffinity`. -/
structure ThreadInfo (n : Nat) where
  affinity : Fin n → Bool := fun _ => false
  hasAffinity : Bool := false
  coreRunning : Option (Fin n) := none
  lastScheduledIn : Time := 0
  lastScheduledOut : Time := 0

/-- A thread was placed on a core by `threadCreate` or `reschedule`. -/
structure Placement (n : Nat) where
  thread : ThreadId
  core : Fin n
  /-- The core was in the affinity set of the thread. -/
  allowed : Bool

/-- `reschedule` took a thread off its core. -/
structure Removal where
  thread : ThreadId
  status : CoreState

structure PinnedScheduler (n : Nat) where
  quantum : Time
  lastPeriodic : Time
  numThreads : Nat
  threads : ThreadManager
  threadInfo : ThreadId → ThreadInfo n
  coreThreadRunning : Fin n → Option ThreadId
  quantumLeft : Fin n → Time
  runnable : ThreadId → Bool
  /-- `Thread::m_core`. -/
  threadCore : ThreadId → Option (Fin n)
  /-- `Core::m_thread`. -/
  coreThread : Fin n → Option ThreadId
  coreState : Fin n → CoreState
  /-- Written and never read. -/
  placements : List (Placement n)
  /-- Written and never read. -/
  removals : List Removal

/-- Why an event stops the simulation, or is not one of those considered. -/
inductive Halt where
  /-- The assertion in `Thread::setCore`. -/
  | occupied
  | depth
  | outside
  deriving DecidableEq, Repr

/-- A call of `threadSetAffinity`; no mask allows every core. -/
structure AffinityChange (n : Nat) where
  thread : ThreadId
  mask : Option (Fin n → Bool)
  time : Time

namespace PinnedScheduler

variable {n : Nat} (scheduler : PinnedScheduler n)

def status (thread : ThreadId) : CoreState :=
  (scheduler.threads.state thread).status

def setStatus (thread : ThreadId) (status : CoreState) : PinnedScheduler n :=
  { scheduler with
    threads := scheduler.threads.setState thread
      { scheduler.threads.state thread with status := status } }

def setInfo (thread : ThreadId) (info : ThreadInfo n) : PinnedScheduler n :=
  { scheduler with
    threadInfo := update scheduler.threadInfo thread info }

/-- `m_quantum_left[core_id] = m_quantum`. -/
def refill (core : Fin n) : PinnedScheduler n :=
  { scheduler with
    quantumLeft := update scheduler.quantumLeft core
      scheduler.quantum }

/-- `Thread::setCore`. -/
def setCore (thread : ThreadId) (core : Option (Fin n)) :
    Except Halt (PinnedScheduler n) :=
  let left := match scheduler.threadCore thread with
    | none => scheduler.coreThread
    | some old => update scheduler.coreThread old none
  let moved := { scheduler with
    threadCore := update scheduler.threadCore thread core }
  match core with
  | none => .ok { moved with coreThread := left }
  | some core =>
      if left core = none then
        .ok { moved with coreThread := update left core (some thread) }
      else
        .error .occupied

def findFreeCoreForThread (thread : ThreadId) : Option (Fin n) :=
  (List.finRange n).find? fun core =>
    (scheduler.threadInfo thread).affinity core &&
      (scheduler.coreThreadRunning core).isNone

/-! ## Rescheduling -/

/-- `getPS`. A time has 64 bits. -/
def picoseconds (time : Time) : Nat :=
  time % 2 ^ 64 / 1000

/-- The score of a thread. The difference of two unsigned numbers becomes a
signed one. -/
def score (time : Time) (thread : ThreadId) : Int :=
  let info := scheduler.threadInfo thread
  if info.coreRunning.isSome then
    Int.bmod (picoseconds info.lastScheduledIn - picoseconds time) (2 ^ 64)
  else
    Int.bmod (picoseconds time - picoseconds info.lastScheduledOut) (2 ^ 64)

/-- The thread may run on the core, is not stalled, and does not run
elsewhere. -/
def Candidate (core : Fin n) (thread : ThreadId) : Prop :=
  (scheduler.threadInfo thread).affinity core = true ∧
    scheduler.runnable thread = true ∧
    ((scheduler.threadInfo thread).coreRunning = none ∨
      (scheduler.threadInfo thread).coreRunning = some core)

instance (core : Fin n) (thread : ThreadId) :
    Decidable (scheduler.Candidate core thread) :=
  inferInstanceAs (Decidable (_ ∧ _ ∧ (_ ∨ _)))

/-- The loop that finds the candidate with the greatest score. -/
def select (time : Time) (core : Fin n) : Option ThreadId :=
  ((List.range scheduler.numThreads).foldl (fun best thread =>
    if scheduler.Candidate core thread ∧
        best.2 < scheduler.score time thread then
      (some thread, scheduler.score time thread)
    else
      best) ((none, -2 ^ 63) : Option ThreadId × Int)).1

/-- What `reschedule` is for the code that it calls. -/
abbrev Again (n : Nat) :=
  Time → Fin n → PinnedScheduler n → Except Halt (PinnedScheduler n)

/-- `threadResume`, the hook of `resumeThread`. -/
def threadResume (again : Again n) (thread : ThreadId) (time : Time) :
    Except Halt (PinnedScheduler n) :=
  match scheduler.findFreeCoreForThread thread with
  | none => .ok scheduler
  | some core => again time core scheduler

/-- The thread runs again; the hook of `resumeThread` marks it runnable. -/
def awaken (thread : ThreadId) (time : Time) : PinnedScheduler n :=
  { scheduler with
    threads := scheduler.threads.resumeThread thread time false
    runnable := update scheduler.runnable thread true }

def resumeThread (again : Again n) (thread : ThreadId) (time : Time) :
    Except Halt (PinnedScheduler n) :=
  (scheduler.awaken thread time).threadResume again thread time

/-- A thread that has no core and only waits for one. -/
def Unscheduled (thread : ThreadId) : Prop :=
  scheduler.threadCore thread = none ∧
    (scheduler.threads.state thread).status = .stalled ∧
    (scheduler.threads.state thread).stalledReason = .unscheduled

instance (thread : ThreadId) : Decidable (scheduler.Unscheduled thread) :=
  inferInstanceAs (Decidable (_ ∧ _ ∧ _))

/-- Unless the thread is stalled for something else, it is woken up. -/
def wakeUnscheduled (again : Again n) (thread : ThreadId) (time : Time) :
    Except Halt (PinnedScheduler n) :=
  if scheduler.Unscheduled thread then
    scheduler.resumeThread again thread time
  else
    .ok scheduler

/-- `moveThread`. -/
def moveThread (again : Again n) (thread : ThreadId) (core : Option (Fin n))
    (time : Time) : Except Halt (PinnedScheduler n) :=
  let idle := match scheduler.threadCore thread with
    | none => scheduler
    | some old =>
        { scheduler with
          coreState := update scheduler.coreState old .idle }
  match core with
  | none => idle.setCore thread none
  | some core => do
      let awake ← idle.wakeUnscheduled again thread time
      let moved ← awake.setCore thread (some core)
      if moved.status thread = .stalled then
        return moved
      else
        return { moved with
          coreState := update moved.coreState core .running }

/-- The running thread is taken off the core. A picosecond for each core
number keeps the thread from being considered again. -/
def unschedule (again : Again n) (time : Time) (core : Fin n) :
    Except Halt (PinnedScheduler n) :=
  match scheduler.coreThreadRunning core with
  | none => .ok scheduler
  | some thread =>
      moveThread
        { scheduler.setInfo thread
            { scheduler.threadInfo thread with
              coreRunning := none
              lastScheduledOut := time + core.val * 1000 } with
          removals := scheduler.removals ++
            [⟨thread, scheduler.status thread⟩] }
        again thread none time

/-- The core of a thread that runs somewhere forgets it. -/
def forget (thread : ThreadId) : PinnedScheduler n :=
  match (scheduler.threadInfo thread).coreRunning with
  | none => scheduler
  | some old =>
      { scheduler with
        coreThreadRunning := update scheduler.coreThreadRunning old
          none }

/-- The new thread is placed on the core, which is occupied before the thread
is moved. -/
def assign (again : Again n) (time : Time) (core : Fin n)
    (new : Option ThreadId) : Except Halt (PinnedScheduler n) :=
  let taken := { scheduler with
    coreThreadRunning := update scheduler.coreThreadRunning core new }
  match new with
  | none => .ok taken
  | some thread =>
      let free := taken.forget thread
      moveThread
        { free.setInfo thread
            { free.threadInfo thread with
              coreRunning := some core
              lastScheduledIn := time } with
          placements := free.placements ++
            [⟨thread, core, (free.threadInfo thread).affinity core⟩] }
        again thread (some core) time

/-- The running thread of the core is starting up. -/
def Starting (core : Fin n) : Prop :=
  ∃ thread ∈ scheduler.coreThreadRunning core,
    scheduler.status thread = .initializing

instance (core : Fin n) : Decidable (scheduler.Starting core) :=
  inferInstanceAs (Decidable (∃ thread ∈ scheduler.coreThreadRunning core, _))

/-- `reschedule`, with a bound on how deeply it is entered again from the
threads that it resumes. -/
def reschedule : Nat → Again n
  | 0, _, _, _ => .error .depth
  | depth + 1, time, core, scheduler =>
      if scheduler.Starting core then
        .ok scheduler
      else if scheduler.coreThreadRunning core = scheduler.select time core then
        .ok (scheduler.refill core)
      else do
        let stopped ← scheduler.unschedule (reschedule depth) time core
        let placed ← stopped.assign (reschedule depth) time core
          (scheduler.select time core)
        return placed.refill core

/-- The depth suffices because a resumed thread is only ever placed on a core
that is free. -/
def enough : Again n :=
  reschedule (n + 1)

/-! ## Events -/

/-- `createThread_unlocked` and `threadCreate`. The affinity that the thread
gets when it has none is the one of `threadSetInitialAffinity`. -/
def createThread (initial : Fin n → Bool) : Except Halt (PinnedScheduler n) :=
  let thread := scheduler.numThreads
  let info := scheduler.threadInfo thread
  let pinned : ThreadInfo n :=
    if info.hasAffinity then info
    else
      { info with
        affinity := initial
        hasAffinity := (List.finRange n).any initial }
  let created :=
    ({ scheduler with
        numThreads := thread + 1 }.setInfo thread pinned).setStatus thread
      .initializing
  match created.findFreeCoreForThread thread with
  | none => .ok (created.setInfo thread { pinned with coreRunning := none })
  | some core => do
      let placed : PinnedScheduler n :=
        { created.setInfo thread { pinned with coreRunning := some core } with
          coreThreadRunning := update created.coreThreadRunning core
            (some thread)
          placements := created.placements ++
            [⟨thread, core, pinned.affinity core⟩] }
      let moved ← (placed.refill core).setCore thread (some core)
      return { moved with
        coreState := update moved.coreState core .initializing }

/-- `onThreadStart`, with the hook `threadStart` in it. -/
def onThreadStart (thread : ThreadId) (time : Time) :
    Except Halt (PinnedScheduler n) := do
  let running := { scheduler.setStatus thread .running with
    runnable := update scheduler.runnable thread true }
  let started ← running.threadResume enough thread time
  match started.threadCore thread with
  | some core =>
      return { started.setStatus thread .running with
        coreState := update started.coreState core .running }
  | none =>
      return { started with
        threads := started.threads.stallThreadAsync thread .unscheduled }

/-- The thread is rescheduled if it runs: the base class's `threadStall` and
`threadExit`. -/
def leaveCore (thread : ThreadId) (time : Time) :
    Except Halt (PinnedScheduler n) :=
  match (scheduler.threadInfo thread).coreRunning with
  | none => .ok scheduler
  | some core => enough time core scheduler

def threadYield (thread : ThreadId) (time : Time) :
    Except Halt (PinnedScheduler n) :=
  match (scheduler.threadInfo thread).coreRunning with
  | none => .ok scheduler
  | some core => do
      let yielded ← enough time core
        { scheduler with
          quantumLeft := update scheduler.quantumLeft core 0 }
      if (yielded.threadInfo thread).affinity core then
        return yielded
      else
        yielded.threadResume enough thread time

/-- `setExplicitAffinity` apart, the part of `threadSetAffinity` that changes
the affinity. -/
def changeAffinity (thread : ThreadId) (mask : Option (Fin n → Bool)) :
    PinnedScheduler n :=
  scheduler.setInfo thread
    { scheduler.threadInfo thread with
      affinity := mask.getD fun _ => true
      hasAffinity := (scheduler.threadInfo thread).hasAffinity ||
        (List.finRange n).any (mask.getD fun _ => true) }

/-- `threadSetAffinity`. -/
def threadSetAffinity (caller : Option ThreadId) (change : AffinityChange n) :
    Except Halt (PinnedScheduler n) :=
  let thread := change.thread
  let changed := scheduler.changeAffinity thread change.mask
  if changed.numThreads ≤ thread then
    .ok changed
  else if caller = some thread then
    changed.threadYield thread change.time
  else
    match (changed.threadInfo thread).coreRunning with
    | some core =>
        if (changed.threadInfo thread).affinity core then
          .ok changed
        else
          .ok { changed with
            quantumLeft := update changed.quantumLeft core 0 }
    | none =>
        if changed.runnable thread then
          changed.threadResume enough thread change.time
        else
          .ok changed

/-- The calls of `threadSetAffinity` with which a subclass begins a hook. -/
def changeAffinities (changes : List (AffinityChange n)) :
    Except Halt (PinnedScheduler n) :=
  changes.foldlM (fun scheduler change =>
    scheduler.threadSetAffinity none change) scheduler

/-- `stallThread_async` and its hook. -/
def stallThread (thread : ThreadId) (reason : StallType) (time : Time)
    (changes : List (AffinityChange n)) : Except Halt (PinnedScheduler n) :=
  let stalled := { scheduler with
    threads := scheduler.threads.stallThreadAsync thread reason }
  if reason = .unscheduled then
    .ok stalled
  else do
    let changed ← { stalled with
      runnable := update stalled.runnable thread false
      }.changeAffinities changes
    changed.leaveCore thread time

/-- `onThreadExit`, which wakes some threads while the thread still has its
core. -/
def onThreadExit (thread : ThreadId) (time : Time) (woken : List ThreadId)
    (changes : List (AffinityChange n)) : Except Halt (PinnedScheduler n) := do
  let exited ← woken.foldlM (fun scheduler waiter =>
    scheduler.resumeThread enough waiter time)
    (scheduler.setStatus thread .idle)
  let idle := match exited.threadCore thread with
    | none => exited
    | some core =>
        { exited with
          coreState := update exited.coreState core .idle }
  let left ← idle.setCore thread none
  let changed ← { left with
    runnable := update left.runnable thread false
    }.changeAffinities changes
  changed.leaveCore thread time

/-- `periodic`. -/
def periodic (time : Time) (changes : List (AffinityChange n)) :
    Except Halt (PinnedScheduler n) := do
  let changed ← scheduler.changeAffinities changes
  let delta := time - changed.lastPeriodic
  let after ← (List.finRange n).foldlM (fun scheduler core =>
    if scheduler.quantumLeft core < delta ∨
        scheduler.coreThreadRunning core = none then
      enough time core scheduler
    else
      .ok { scheduler with
        quantumLeft := update scheduler.quantumLeft core
          (scheduler.quantumLeft core - delta) }) changed
  return { after with lastPeriodic := time }

/-- A thread that has started and not exited. -/
def Started (thread : ThreadId) : Prop :=
  scheduler.status thread = .running ∨ scheduler.status thread = .stalled

instance (thread : ThreadId) : Decidable (scheduler.Started thread) :=
  inferInstanceAs (Decidable (_ ∨ _))

inductive Event (n : Nat) where
  | create (initial : Fin n → Bool)
  | start (thread : ThreadId) (time : Time)
  | stall (thread : ThreadId) (reason : StallType) (time : Time)
      (changes : List (AffinityChange n))
  | resume (thread : ThreadId) (time : Time)
  | exit (thread : ThreadId) (time : Time) (woken : List ThreadId)
      (changes : List (AffinityChange n))
  | yield (thread : ThreadId) (time : Time)
  | setAffinity (caller : Option ThreadId) (change : AffinityChange n)
  | periodic (time : Time) (changes : List (AffinityChange n))

/-- Only a thread that has started and not exited stalls and is resumed, and
one that exits runs on a core. -/
def step : Event n → Except Halt (PinnedScheduler n)
  | .create initial => scheduler.createThread initial
  | .start thread time =>
      if scheduler.status thread = .initializing then
        scheduler.onThreadStart thread time
      else
        .error .outside
  | .stall thread reason time changes =>
      if scheduler.Started thread then
        scheduler.stallThread thread reason time changes
      else
        .error .outside
  | .resume thread time =>
      if scheduler.Started thread then
        scheduler.resumeThread enough thread time
      else
        .error .outside
  | .exit thread time woken changes =>
      if scheduler.status thread = .running ∧
          scheduler.threadCore thread ≠ none ∧
          ∀ waiter ∈ woken, waiter ≠ thread ∧ scheduler.Started waiter then
        scheduler.onThreadExit thread time woken changes
      else
        .error .outside
  | .yield thread time => scheduler.threadYield thread time
  | .setAffinity caller change => scheduler.threadSetAffinity caller change
  | .periodic time changes => scheduler.periodic time changes

def initial (n : Nat) (quantum : Time) : PinnedScheduler n where
  quantum := quantum
  lastPeriodic := 0
  numThreads := 0
  threads := ⟨fun _ => {}, fun _ => {}⟩
  threadInfo := fun _ => {}
  coreThreadRunning := fun _ => none
  quantumLeft := fun _ => 0
  runnable := fun _ => false
  threadCore := fun _ => none
  coreThread := fun _ => none
  coreState := fun _ => .idle
  placements := []
  removals := []

end PinnedScheduler

end ChipletSniper.Threads
