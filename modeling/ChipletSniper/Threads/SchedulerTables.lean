import ChipletSniper.Library.Runs
import ChipletSniper.Threads.PinnedScheduler

/-!
# The tables of the schedulers

`m_thread_info` and `m_threads_runnable` are vectors, which grow at different
events by different rules. Here every index is compared with the size of its
vector before the entry is used.
-/

namespace ChipletSniper.Threads

open Function

/-- Why an event does not get to its end. -/
inductive Fault where
  /-- An index that `threadCreate`, a hook or `reschedule` uses is not smaller
  than the size of the vector. -/
  | outOfRange
  /-- An index that `threadSetAffinity` reads itself. -/
  | affinityOutOfRange
  | halted (halt : Halt)
  deriving DecidableEq

/-- The scheduler with the sizes of its vectors. -/
structure SchedulerTables (n : Nat) where
  scheduler : PinnedScheduler n
  /-- `m_thread_info.size()`. -/
  infoSize : Nat
  /-- `m_threads_runnable.size()`. -/
  runnableSize : Nat

namespace SchedulerTables

variable {n : Nat} (tables : SchedulerTables n)

def put (scheduler : PinnedScheduler n) : SchedulerTables n :=
  { tables with scheduler := scheduler }

/-- What does not use the vectors. -/
def lift (result : Except Halt (PinnedScheduler n)) :
    Except Fault (SchedulerTables n) :=
  (result.map tables.put).mapError .halted

/-- `m_thread_info[thread_id]`. -/
def indexInfo (thread : ThreadId) : Except Fault Unit :=
  if thread < tables.infoSize then .ok () else .error .outOfRange

/-- `m_threads_runnable[thread_id]`. -/
def indexRunnable (thread : ThreadId) : Except Fault Unit :=
  if thread < tables.runnableSize then .ok () else .error .outOfRange

/-- The entry of the thread is read for every core. -/
def findFreeCoreForThread (thread : ThreadId) :
    Except Fault (Option (Fin n)) := do
  tables.indexInfo thread
  return tables.scheduler.findFreeCoreForThread thread

/-- The body of the loop that looks for the candidate with the greatest
score. -/
def consider (time : Time) (core : Fin n) (best : Option ThreadId × Int)
    (thread : ThreadId) : Except Fault (Option ThreadId × Int) := do
  tables.indexInfo thread
  if tables.scheduler.Candidate core thread ∧
      best.2 < tables.scheduler.score time thread then
    return (some thread, tables.scheduler.score time thread)
  else
    return best

/-- The loop is bounded by the size of the other vector. -/
def select (time : Time) (core : Fin n) : Except Fault (Option ThreadId) :=
  ((List.range tables.runnableSize).foldlM (tables.consider time core)
    (none, -2 ^ 63)).map Prod.fst

/-- What `reschedule` is for the code that it calls. -/
abbrev Again (n : Nat) :=
  Time → Fin n → SchedulerTables n → Except Fault (SchedulerTables n)

def threadResume (again : Again n) (thread : ThreadId) (time : Time) :
    Except Fault (SchedulerTables n) := do
  match ← tables.findFreeCoreForThread thread with
  | none => return tables
  | some core => again time core tables

/-- `resumeThread` with its hook `__threadResume`. -/
def resumeThread (again : Again n) (thread : ThreadId) (time : Time) :
    Except Fault (SchedulerTables n) := do
  tables.indexRunnable thread
  (tables.put (tables.scheduler.awaken thread time)).threadResume again thread
    time

def wakeUnscheduled (again : Again n) (thread : ThreadId) (time : Time) :
    Except Fault (SchedulerTables n) :=
  if tables.scheduler.Unscheduled thread then
    tables.resumeThread again thread time
  else
    .ok tables

/-- The core that the thread leaves becomes idle. -/
def vacateCore (thread : ThreadId) : SchedulerTables n :=
  match tables.scheduler.threadCore thread with
  | none => tables
  | some old => tables.put
      { tables.scheduler with
        coreState := update tables.scheduler.coreState old .idle }

/-- `moveThread` to a core. -/
def moveThread (again : Again n) (thread : ThreadId) (core : Fin n)
    (time : Time) : Except Fault (SchedulerTables n) := do
  let awake ← (tables.vacateCore thread).wakeUnscheduled again thread time
  let moved ← awake.lift (awake.scheduler.setCore thread (some core))
  if moved.scheduler.status thread = .stalled then
    return moved
  else
    return moved.put
      { moved.scheduler with
        coreState := update moved.scheduler.coreState core .running }

/-- The running thread is taken off the core; nothing is resumed by that. -/
def unschedule (time : Time) (core : Fin n) :
    Except Fault (SchedulerTables n) :=
  match tables.scheduler.coreThreadRunning core with
  | none => .ok tables
  | some thread => do
      tables.indexInfo thread
      tables.lift (tables.scheduler.unschedule
        (fun _ _ scheduler => .ok scheduler) time core)

def assign (again : Again n) (time : Time) (core : Fin n)
    (new : Option ThreadId) : Except Fault (SchedulerTables n) :=
  let taken := { tables.scheduler with
    coreThreadRunning :=
      update tables.scheduler.coreThreadRunning core new }
  match new with
  | none => .ok (tables.put taken)
  | some thread => do
      tables.indexInfo thread
      let free := taken.forget thread
      (tables.put
        { free.setInfo thread
            { free.threadInfo thread with
              coreRunning := some core
              lastScheduledIn := time } with
          placements := free.placements ++
            [⟨thread, core, (free.threadInfo thread).affinity core⟩]
        }).moveThread again thread core time

/-- `reschedule`, with a bound on how deeply it is entered again. -/
def reschedule : Nat → Again n
  | 0, _, _, _ => .error (.halted .depth)
  | depth + 1, time, core, tables =>
      if tables.scheduler.Starting core then
        .ok tables
      else do
        let new ← tables.select time core
        if tables.scheduler.coreThreadRunning core = new then
          return tables.put (tables.scheduler.refill core)
        else
          let stopped ← tables.unschedule time core
          let placed ← stopped.assign (reschedule depth) time core new
          return placed.put (placed.scheduler.refill core)

def enough : Again n :=
  reschedule (n + 1)

/-! ## Events -/

/-- `m_thread_info` in `threadCreate`. -/
def growInfo (thread : ThreadId) : SchedulerTables n :=
  if tables.infoSize ≤ thread then
    { tables with infoSize := tables.infoSize + 16 }
  else
    tables

/-- `m_thread_info` in `threadSetAffinity`. -/
def reachInfo (thread : ThreadId) : SchedulerTables n :=
  if tables.infoSize ≤ thread then
    { tables with infoSize := thread + 16 }
  else
    tables

/-- `m_threads_runnable` in `__threadStart`. -/
def growRunnable (thread : ThreadId) : SchedulerTables n :=
  if tables.runnableSize ≤ thread then
    { tables with runnableSize := tables.runnableSize + 16 }
  else
    tables

def threadCreate (initial : Fin n → Bool) :
    Except Fault (SchedulerTables n) := do
  let thread := tables.scheduler.numThreads
  let grown := tables.growInfo thread
  grown.indexInfo thread
  grown.lift (grown.scheduler.createThread initial)

/-- `onThreadStart` with its hook `__threadStart`. -/
def onThreadStart (thread : ThreadId) (time : Time) :
    Except Fault (SchedulerTables n) := do
  let grown := tables.growRunnable thread
  grown.indexRunnable thread
  let started ← (grown.put
    { grown.scheduler.setStatus thread .running with
      runnable := update grown.scheduler.runnable thread true
    }).threadResume enough thread time
  match started.scheduler.threadCore thread with
  | some core =>
      return started.put
        { started.scheduler.setStatus thread .running with
          coreState :=
            update started.scheduler.coreState core .running }
  | none =>
      return started.put
        { started.scheduler with
          threads :=
            started.scheduler.threads.stallThreadAsync thread .unscheduled }

/-- `threadStall` and `threadExit`. -/
def leaveCore (thread : ThreadId) (time : Time) :
    Except Fault (SchedulerTables n) := do
  tables.indexInfo thread
  match (tables.scheduler.threadInfo thread).coreRunning with
  | none => return tables
  | some core => enough time core tables

/-- `stallThread_async` with its hook `__threadStall`. -/
def stallThread (thread : ThreadId) (reason : StallType) (time : Time) :
    Except Fault (SchedulerTables n) := do
  let stalled := { tables.scheduler with
    threads := tables.scheduler.threads.stallThreadAsync thread reason }
  if reason = .unscheduled then
    return tables.put stalled
  else
    tables.indexRunnable thread
    (tables.put
      { stalled with
        runnable := update stalled.runnable thread false
      }).leaveCore thread time

/-- `onThreadExit` with its hook `__threadExit`. -/
def onThreadExit (thread : ThreadId) (time : Time) (woken : List ThreadId) :
    Except Fault (SchedulerTables n) := do
  let exited ← woken.foldlM (fun tables waiter =>
    tables.resumeThread enough waiter time)
    (tables.put (tables.scheduler.setStatus thread .idle))
  let idle := exited.vacateCore thread
  let left ← idle.lift (idle.scheduler.setCore thread none)
  left.indexRunnable thread
  (left.put
    { left.scheduler with
      runnable := update left.scheduler.runnable thread false
    }).leaveCore thread time

def threadYield (thread : ThreadId) (time : Time) :
    Except Fault (SchedulerTables n) := do
  tables.indexInfo thread
  match (tables.scheduler.threadInfo thread).coreRunning with
  | none => return tables
  | some core =>
      let yielded ← enough time core (tables.put
        { tables.scheduler with
          quantumLeft :=
            update tables.scheduler.quantumLeft core 0 })
      yielded.indexInfo thread
      if (yielded.scheduler.threadInfo thread).affinity core then
        return yielded
      else
        yielded.threadResume enough thread time

/-- `m_threads_runnable[thread_id]` in `threadSetAffinity`. -/
def indexAffinity (thread : ThreadId) : Except Fault Unit :=
  if thread < tables.runnableSize then .ok ()
  else .error .affinityOutOfRange

def threadSetAffinity (caller : Option ThreadId) (change : AffinityChange n) :
    Except Fault (SchedulerTables n) := do
  let thread := change.thread
  let grown := tables.reachInfo thread
  let changed :=
    grown.put (grown.scheduler.changeAffinity thread change.mask)
  if changed.scheduler.numThreads ≤ thread then
    return changed
  else if caller = some thread then
    changed.threadYield thread change.time
  else
    match (changed.scheduler.threadInfo thread).coreRunning with
    | some core =>
        if (changed.scheduler.threadInfo thread).affinity core then
          changed.indexAffinity thread
          return changed
        else
          return changed.put
            { changed.scheduler with
              quantumLeft :=
                update changed.scheduler.quantumLeft core 0 }
    | none =>
        changed.indexAffinity thread
        if changed.scheduler.runnable thread then
          changed.threadResume enough thread change.time
        else
          return changed

/-- The body of the loop in `periodic`. -/
def tick (time delta : Time) (core : Fin n) :
    Except Fault (SchedulerTables n) :=
  if tables.scheduler.quantumLeft core < delta ∨
      tables.scheduler.coreThreadRunning core = none then
    enough time core tables
  else
    .ok (tables.put
      { tables.scheduler with
        quantumLeft := update tables.scheduler.quantumLeft core
          (tables.scheduler.quantumLeft core - delta) })

def periodic (time : Time) : Except Fault (SchedulerTables n) := do
  let delta := time - tables.scheduler.lastPeriodic
  let after ← (List.finRange n).foldlM
    (fun tables core => tables.tick time delta core) tables
  return after.put { after.scheduler with lastPeriodic := time }

inductive TableEvent (n : Nat) where
  | create (initial : Fin n → Bool)
  | start (thread : ThreadId) (time : Time)
  | stall (thread : ThreadId) (reason : StallType) (time : Time)
  | resume (thread : ThreadId) (time : Time)
  | exit (thread : ThreadId) (time : Time) (woken : List ThreadId)
  | yield (thread : ThreadId) (time : Time)
  | setAffinity (caller : Option ThreadId) (change : AffinityChange n)
  | periodic (time : Time)

/-- When an event can happen. Threads are created in the order of their
numbers and started in any order; an affinity can be set for any number. -/
def Able : TableEvent n → Prop
  | .start thread _ => tables.scheduler.status thread = .initializing
  | .stall thread _ _ | .resume thread _ => tables.scheduler.Started thread
  | .exit thread _ woken =>
      tables.scheduler.status thread = .running ∧
        tables.scheduler.threadCore thread ≠ none ∧
        ∀ waiter ∈ woken, waiter ≠ thread ∧ tables.scheduler.Started waiter
  | .yield thread _ => thread < tables.scheduler.numThreads
  | _ => True

instance : (event : TableEvent n) → Decidable (tables.Able event)
  | .start _ _ => inferInstanceAs (Decidable (_ = _))
  | .stall _ _ _ => inferInstanceAs (Decidable (_ ∨ _))
  | .resume _ _ => inferInstanceAs (Decidable (_ ∨ _))
  | .exit thread _ woken =>
      inferInstanceAs (Decidable (_ ∧ _ ∧ ∀ waiter ∈ woken, waiter ≠ thread ∧
        tables.scheduler.Started waiter))
  | .yield _ _ => inferInstanceAs (Decidable (_ < _))
  | .create _ => inferInstanceAs (Decidable True)
  | .setAffinity _ _ => inferInstanceAs (Decidable True)
  | .periodic _ => inferInstanceAs (Decidable True)

def handle : TableEvent n → Except Fault (SchedulerTables n)
  | .create initial => tables.threadCreate initial
  | .start thread time => tables.onThreadStart thread time
  | .stall thread reason time => tables.stallThread thread reason time
  | .resume thread time => tables.resumeThread enough thread time
  | .exit thread time woken => tables.onThreadExit thread time woken
  | .yield thread time => tables.threadYield thread time
  | .setAffinity caller change => tables.threadSetAffinity caller change
  | .periodic time => tables.periodic time

def step (event : TableEvent n) : Except Fault (SchedulerTables n) :=
  if tables.Able event then tables.handle event
  else .error (.halted .outside)

/-- The constructors: one vector starts with 16 entries, the other with
none. -/
def initial (n : Nat) (quantum : Time) : SchedulerTables n where
  scheduler := PinnedScheduler.initial n quantum
  infoSize := 0
  runnableSize := 16

end SchedulerTables

end ChipletSniper.Threads
