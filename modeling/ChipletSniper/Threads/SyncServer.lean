import ChipletSniper.Threads.ThreadManager
import Mathlib.Data.Nat.Basic

/-!
# Simulated mutexes, condition variables and barriers

The synchronisation server with the thread manager it calls. Every object
also keeps the history of its queue: these fields are written and never read.
-/

namespace ChipletSniper.Threads

/-- The address of a `carbon_mutex_t`. -/
abbrev MutexId := Nat

/-- The address of a `carbon_cond_t`. -/
abbrev CondId := Nat

/-- `SimMutex`; `NO_OWNER` is `none`. -/
structure SimMutex where
  owner : Option ThreadId := none
  waiting : List ThreadId := []
  /-- Every thread that joined `m_waiting`, in order. -/
  joined : List ThreadId := []
  /-- Every waiter that was handed the mutex, in order. -/
  granted : List ThreadId := []

/-- `SimCond::CondWaiter`. -/
structure CondWaiter where
  thread : ThreadId
  mutex : MutexId
  deriving DecidableEq, Repr

structure SimCond where
  waiting : List CondWaiter := []
  /-- Every waiter that joined `m_waiting`, in order. -/
  joined : List CondWaiter := []
  /-- Every waiter that a signal or a broadcast took out, in order. -/
  woken : List CondWaiter := []

structure SimBarrier where
  count : UInt32
  waiting : List ThreadId := []
  /-- Every thread that arrived, in order. -/
  arrived : List ThreadId := []
  /-- The groups released so far, in order. -/
  released : List (List ThreadId) := []

/-- `SyncServer`. A mutex or condition variable that was never looked up is
the one `getMutex` or `getCond` would create. -/
structure SyncServer where
  rescheduleCost : Time
  mutexes : MutexId → SimMutex
  conds : CondId → SimCond
  barriers : List SimBarrier
  threads : ThreadManager

namespace SyncServer

variable (server : SyncServer)

def setMutex (mux : MutexId) (mutex : SimMutex) : SyncServer :=
  { server with mutexes := Function.update server.mutexes mux mutex }

def setCond (cond : CondId) (value : SimCond) : SyncServer :=
  { server with conds := Function.update server.conds cond value }

/-- `m_waiting.push` of a mutex. -/
def pushWaiter (mux : MutexId) (thread : ThreadId) : SyncServer :=
  let mutex := server.mutexes mux
  server.setMutex mux
    { mutex with
      waiting := mutex.waiting ++ [thread]
      joined := mutex.joined ++ [thread] }

def setOwner (mux : MutexId) (owner : Option ThreadId) : SyncServer :=
  server.setMutex mux { server.mutexes mux with owner := owner }

/-- `SimMutex::isLocked`. -/
def isLocked (mux : MutexId) (thread : ThreadId) : Bool :=
  match (server.mutexes mux).owner with
  | none => false
  | some owner => owner ≠ thread

/-- `SimMutex::lock`: the time when it returns, unless the thread stalls. -/
def lock (mux : MutexId) (thread : ThreadId) (time : Time) :
    SyncServer × Option Time :=
  match (server.mutexes mux).owner with
  | none => (server.setOwner mux (some thread), some time)
  | some _ =>
      let queued := server.pushWaiter mux thread
      ({ queued with threads := queued.threads.stallThread thread .mutex },
        none)

/-- `SimMutex::lock_async`. -/
def lockAsync (mux : MutexId) (thread : ThreadId) (time : Time) :
    SyncServer × Bool :=
  match (server.mutexes mux).owner with
  | none =>
      let taken := server.setOwner mux (some thread)
      ({ taken with threads := taken.threads.resumeThread thread time false },
        true)
  | some _ => (server.pushWaiter mux thread, false)

/-- The front waiter of a mutex becomes its owner and is resumed. -/
def handOver (mux : MutexId) (waiter : ThreadId) (rest : List ThreadId)
    (time : Time) : SyncServer :=
  let mutex := server.mutexes mux
  let handed := server.setMutex mux
    { mutex with
      owner := some waiter
      waiting := rest
      granted := mutex.granted ++ [waiter] }
  { handed with threads := handed.threads.resumeThread waiter time false }

/-- `SimMutex::unlock`; the assertion on the owner stops the simulation. -/
def unlock (mux : MutexId) (thread : ThreadId) (time : Time) :
    Option (SyncServer × Option ThreadId) :=
  if (server.mutexes mux).owner = some thread then
    match (server.mutexes mux).waiting with
    | [] => some (server.setOwner mux none, none)
    | waiter :: rest =>
        some (server.handOver mux waiter rest time, some waiter)
  else
    none

/-- `SimCond::wait`. The call returns when the thread is resumed. -/
def wait (cond : CondId) (thread : ThreadId) (time : Time) (mux : MutexId) :
    Option SyncServer := do
  let (unlocked, _) ← server.unlock mux thread time
  let value := unlocked.conds cond
  let waiter : CondWaiter := ⟨thread, mux⟩
  let queued := unlocked.setCond cond
    { value with
      waiting := value.waiting ++ [waiter]
      joined := value.joined ++ [waiter] }
  return { queued with threads := queued.threads.stallThread thread .cond }

/-- `m_waiting.pop` of a condition variable. -/
def popCond (cond : CondId) (woken : CondWaiter) (rest : List CondWaiter) :
    SyncServer :=
  let value := server.conds cond
  server.setCond cond
    { value with waiting := rest, woken := value.woken ++ [woken] }

/-- What `signal` and the loop of `broadcast` do with the front waiter. -/
def wakeFront (cond : CondId) (time : Time) :
    SyncServer × Option ThreadId :=
  match (server.conds cond).waiting with
  | [] => (server, none)
  | woken :: rest =>
      let (locked, immediately) :=
        (server.popCond cond woken rest).lockAsync woken.mutex woken.thread time
      (locked, if immediately then some woken.thread else none)

/-- `SimCond::signal`. -/
def signal (cond : CondId) (time : Time) : SyncServer × Option ThreadId :=
  server.wakeFront cond time

/-- The loop of `SimCond::broadcast`, with a bound on its rounds. -/
def broadcastLoop (cond : CondId) (time : Time) : Nat → SyncServer → SyncServer
  | 0, server => server
  | rounds + 1, server =>
      match (server.conds cond).waiting with
      | [] => server
      | _ :: _ => broadcastLoop cond time rounds (server.wakeFront cond time).1

/-- `SimCond::broadcast`. Each round takes one waiter out. -/
def broadcast (cond : CondId) (time : Time) : SyncServer :=
  broadcastLoop cond time (server.conds cond).waiting.length server

/-- `SimBarrier::wait`: the time when it returns, unless the thread stalls. -/
def arrive (index : Nat) (barrier : SimBarrier) (thread : ThreadId)
    (time : Time) : SyncServer × Option Time :=
  if barrier.waiting.length = (barrier.count - 1).toNat then
    ({ server with
        barriers := server.barriers.set index
          { barrier with
            waiting := []
            arrived := barrier.arrived ++ [thread]
            released := barrier.released ++ [barrier.waiting ++ [thread]] }
        threads := server.threads.resumeAll barrier.waiting time },
      some time)
  else
    ({ server with
        barriers := server.barriers.set index
          { barrier with
            waiting := barrier.waiting ++ [thread]
            arrived := barrier.arrived ++ [thread] }
        threads := server.threads.stallThread thread .barrier },
      none)

def mutexLock (thread : ThreadId) (mux : MutexId) (tryLock : Bool)
    (time : Time) : SyncServer × Option (Time × Bool) :=
  if tryLock && server.isLocked mux thread then
    (server, some (time, false))
  else
    let (locked, timeEnd) := server.lock mux thread time
    (locked, timeEnd.map fun ended => (ended + server.rescheduleCost, true))

def mutexUnlock (thread : ThreadId) (mux : MutexId) (time : Time) :
    Option (SyncServer × Time) := do
  let (unlocked, newOwner) ←
    server.unlock mux thread (time + server.rescheduleCost)
  return (unlocked,
    time + if newOwner.isNone then 0 else server.rescheduleCost)

def condWait (thread : ThreadId) (cond : CondId) (mux : MutexId)
    (time : Time) : Option SyncServer :=
  server.wait cond thread time mux

def condSignal (cond : CondId) (time : Time) : SyncServer × Time :=
  ((server.signal cond time).1, time)

def condBroadcast (cond : CondId) (time : Time) : SyncServer × Time :=
  (server.broadcast cond time, time)

def barrierInit (count : UInt32) : SyncServer :=
  { server with barriers := server.barriers ++ [{ count := count }] }

/-- `barrierWait`; a handle that `barrierInit` did not give out is no barrier
of the program. -/
def barrierWait (thread : ThreadId) (barrier : Nat) (time : Time) :
    Option (SyncServer × Option Time) :=
  server.barriers[barrier]?.map fun value =>
    server.arrive barrier value thread time

end SyncServer

/-- A call into the server. -/
inductive Call where
  | mutexLock (mux : MutexId) (tryLock : Bool)
  | mutexUnlock (mux : MutexId)
  | condWait (cond : CondId) (mux : MutexId)
  | condSignal (cond : CondId)
  | condBroadcast (cond : CondId)
  | barrierInit (count : UInt32)
  | barrierWait (barrier : Nat)
  deriving DecidableEq, Repr

/-- The return of a call: the time and, for a lock, whether it was taken. -/
structure Returned where
  thread : ThreadId
  call : Call
  time : Time
  success : Bool
  deriving DecidableEq, Repr

/-- The server with the calls in which threads are blocked. -/
structure SyncSystem where
  server : SyncServer
  pending : ThreadId → Option Call

namespace SyncSystem

inductive Action where
  /-- A thread that is in no call makes one. -/
  | call (thread : ThreadId) (call : Call) (time : Time)
  /-- A resumed thread gets the lock back and leaves its call. -/
  | leave (thread : ThreadId)
  deriving DecidableEq, Repr

variable (system : SyncSystem)

/-- The new server, and the time and success when the call returns at once. -/
def serve (thread : ThreadId) (time : Time) :
    Call → Option (SyncServer × Option (Time × Bool))
  | .mutexLock mux tryLock =>
      some (system.server.mutexLock thread mux tryLock time)
  | .mutexUnlock mux =>
      (system.server.mutexUnlock thread mux time).map fun (server, ended) =>
        (server, some (ended, true))
  | .condWait cond mux =>
      (system.server.condWait thread cond mux time).map (·, none)
  | .condSignal cond =>
      let (server, ended) := system.server.condSignal cond time
      some (server, some (ended, true))
  | .condBroadcast cond =>
      let (server, ended) := system.server.condBroadcast cond time
      some (server, some (ended, true))
  | .barrierInit count => some (system.server.barrierInit count, some (time, true))
  | .barrierWait barrier =>
      (system.server.barrierWait thread barrier time).map
        fun (server, ended) => (server, ended.map (·, true))

/-- What a resumed thread adds to its wakeup time. -/
def extraCost : Call → Time
  | .mutexLock _ _ => system.server.rescheduleCost
  | _ => 0

/-- Calls come from threads that run, a thread does not lock a mutex it owns
and a barrier has a positive count. -/
def Allowed (thread : ThreadId) : Call → Prop
  | .mutexLock mux _ => (system.server.mutexes mux).owner ≠ some thread
  | .barrierInit count => count ≠ 0
  | _ => True

instance (thread : ThreadId) (call : Call) :
    Decidable (system.Allowed thread call) :=
  match call with
  | .mutexLock _ _ => inferInstanceAs (Decidable (_ ≠ _))
  | .barrierInit _ => inferInstanceAs (Decidable (_ ≠ _))
  | .mutexUnlock _ => .isTrue trivial
  | .condWait _ _ => .isTrue trivial
  | .condSignal _ => .isTrue trivial
  | .condBroadcast _ => .isTrue trivial
  | .barrierWait _ => .isTrue trivial

def step (action : Action) : Option (SyncSystem × Option Returned) :=
  match action with
  | .call thread call time =>
      if system.pending thread = none ∧ ¬ system.server.threads.Stalled thread ∧
          system.Allowed thread call then
        (system.serve thread time call).map fun
          | (server, some (ended, success)) =>
              ({ system with server := server },
                some ⟨thread, call, ended, success⟩)
          | (server, none) =>
              ({ server := server,
                 pending := Function.update system.pending thread (some call) },
                none)
      else
        none
  | .leave thread =>
      if system.server.threads.Stalled thread then
        none
      else
        (system.pending thread).map fun call =>
          ({ system with pending := Function.update system.pending thread none },
            some ⟨thread, call,
              (system.server.threads.wakeup thread).time +
                system.extraCost call, true⟩)

/-- The system before any call: every thread runs and no object is in use. -/
def initial (rescheduleCost : Time) : SyncSystem where
  server :=
    { rescheduleCost := rescheduleCost
      mutexes := fun _ => {}
      conds := fun _ => {}
      barriers := []
      threads :=
        { state := fun _ => { status := .running }
          wakeup := fun _ => {} } }
  pending := fun _ => none

end SyncSystem

end ChipletSniper.Threads
