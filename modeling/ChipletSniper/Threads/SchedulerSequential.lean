import Mathlib.Data.List.Sort
import ChipletSniper.Threads.PinnedScheduler

/-!
# The sequential scheduler

Every core has a set of threads, which it executes one after the other. A
thread that starts too early waits in the queue of its core, and a thread that
exits hands the core over.
-/

namespace ChipletSniper.Threads

open Function

structure SchedulerSequential (n : Nat) where
  base : PinnedScheduler n
  /-- How many threads of every set are still to be created. -/
  seqs : Fin n → Int
  currentPinballSet : Nat
  nextThreadToExecute : Fin n → ThreadId
  /-- The priority queues, with the smallest thread at the top. -/
  coreWaitingThreads : Fin n → List ThreadId

/-- The value of `next_tte` before the core's turn in the constructor. -/
def nextTte {n : Nat} (sizes : Fin n → Nat) : Nat → ThreadId
  | 0 => 0
  | core + 1 =>
      nextTte sizes core +
        if inside : core < n then sizes ⟨core, inside⟩ else 0

inductive SequentialEvent where
  | create
  | start (thread : ThreadId)
  | exit (thread : ThreadId) (time : Time)

namespace SchedulerSequential

variable {n : Nat} (scheduler : SchedulerSequential n)

/-- The first core that the affinity string names. Every thread that was
created has one. -/
def affinityCore (thread : ThreadId) : Except Halt (Fin n) :=
  match (List.finRange n).find?
      (scheduler.base.threadInfo thread).affinity with
  | none => .error .outside
  | some core => .ok core

/-- `threadSetInitialAffinity` counts the new thread in the set. -/
def counted (core : Fin n) : SchedulerSequential n :=
  { scheduler with
    seqs := update scheduler.seqs core (scheduler.seqs core - 1)
    currentPinballSet :=
      if scheduler.seqs core - 1 = 0 then scheduler.currentPinballSet + 1
      else scheduler.currentPinballSet }

/-- `createThread_unlocked` with `threadCreate`. There is no set for a thread
beyond the last one. -/
def threadCreate : Except Halt (SchedulerSequential n) :=
  if (scheduler.base.threadInfo scheduler.base.numThreads).hasAffinity then do
    let created ← scheduler.base.createThread fun _ => false
    return { scheduler with base := created }
  else if inside : scheduler.currentPinballSet < n then do
    let core : Fin n := ⟨scheduler.currentPinballSet, inside⟩
    let created ← scheduler.base.createThread fun other => other = core
    return { scheduler.counted core with base := created }
  else
    .error .outside

/-- The first thread of a set was placed on the core when it was created; the
others are pushed to the queue. -/
def threadStart (thread : ThreadId) : Except Halt (SchedulerSequential n) := do
  let core ← scheduler.affinityCore thread
  if scheduler.base.coreThreadRunning core = some thread then
    return {
      scheduler with
      nextThreadToExecute := update scheduler.nextThreadToExecute
        core (scheduler.nextThreadToExecute core + 1) }
  else
    return {
      scheduler with
      base := { scheduler.base with
        runnable := update scheduler.base.runnable thread false }
      coreWaitingThreads := update scheduler.coreWaitingThreads core
        ((scheduler.coreWaitingThreads core).orderedInsert (· ≤ ·) thread) }

/-- The core is handed over if the next thread is at the top of the queue. -/
def allocateNext (core : Fin n) (time : Time) :
    Except Halt (SchedulerSequential n) :=
  match scheduler.coreWaitingThreads core with
  | [] => .ok scheduler
  | next :: rest =>
      if next ≠ scheduler.nextThreadToExecute core then
        .ok scheduler
      else do
        let base ← PinnedScheduler.enough time core
          { scheduler.base with
            runnable := update scheduler.base.runnable next true }
        return {
          scheduler with
          base := base
          nextThreadToExecute := update
            scheduler.nextThreadToExecute core
            (scheduler.nextThreadToExecute core + 1)
          coreWaitingThreads :=
            update scheduler.coreWaitingThreads core rest }

def threadExit (thread : ThreadId) (time : Time) :
    Except Halt (SchedulerSequential n) := do
  let core ← scheduler.affinityCore thread
  let ended : PinnedScheduler n :=
    { scheduler.base.setInfo thread
        { scheduler.base.threadInfo thread with lastScheduledOut := time } with
      runnable := update scheduler.base.runnable thread false }
  allocateNext { scheduler with base := ended } core time

/-- What the hook of a start finds. -/
def begun (thread : ThreadId) : SchedulerSequential n :=
  { scheduler with
    base := { scheduler.base.setStatus thread .running with
      runnable := update scheduler.base.runnable thread true } }

/-- What follows the hook of a start. Without a core the thread is stalled. -/
def settled (thread : ThreadId) : SchedulerSequential n :=
  { scheduler with
    base := match scheduler.base.threadCore thread with
      | some core =>
          { scheduler.base.setStatus thread .running with
            coreState :=
              update scheduler.base.coreState core .running }
      | none =>
          { scheduler.base with
            threads :=
              scheduler.base.threads.stallThreadAsync thread .unscheduled } }

/-- `onThreadStart` with its hook. -/
def onThreadStart (thread : ThreadId) :
    Except Halt (SchedulerSequential n) := do
  let started ← (scheduler.begun thread).threadStart thread
  return started.settled thread

/-- `onThreadExit` with its hook. No thread waits for another one to exit. -/
def onThreadExit (thread : ThreadId) (time : Time) :
    Except Halt (SchedulerSequential n) := do
  let exited := scheduler.base.setStatus thread .idle
  let idle := match exited.threadCore thread with
    | none => exited
    | some core =>
        { exited with
          coreState := update exited.coreState core .idle }
  let left ← idle.setCore thread none
  threadExit { scheduler with base := left } thread time

/-- A thread starts once, and one that exits runs on a core. -/
def step : SequentialEvent → Except Halt (SchedulerSequential n)
  | .create => scheduler.threadCreate
  | .start thread =>
      if scheduler.base.status thread = .initializing then
        scheduler.onThreadStart thread
      else
        .error .outside
  | .exit thread time =>
      if scheduler.base.status thread = .running ∧
          scheduler.base.threadCore thread ≠ none then
        scheduler.onThreadExit thread time
      else
        .error .outside

/-- The constructor. The quantum is ten seconds. -/
def initial {n : Nat} (sizes : Fin n → Nat) : SchedulerSequential n where
  base := PinnedScheduler.initial n (10 ^ 16)
  seqs := fun core => sizes core
  currentPinballSet := 0
  nextThreadToExecute := fun core => nextTte sizes core
  coreWaitingThreads := fun _ => []

end SchedulerSequential

end ChipletSniper.Threads
