import ChipletSniper.Threads.ThreadManager
import Mathlib.Data.Fin.Basic
import Mathlib.Data.List.FinRange

/-!
# The clock-skew barrier

The barrier server in detailed mode, without SMT groups. Which thread runs on
which core is decided outside the server: the threads, the scheduler and the
periodic hook change it between and inside the calls.
-/

namespace ChipletSniper.Threads

open Function

/-- One advance of `m_next_barrier_time`. -/
structure Advance (n : Nat) where
  /-- The barrier time that is left. -/
  time : Time
  clocks : Fin n → Time
  /-- The threads that ran when `barrierRelease` was called. -/
  before : Fin n → Option ThreadId
  /-- The threads that run when the time advances. -/
  running : Fin n → Option ThreadId

/-- `BarrierSyncServer` for `n` application cores. -/
structure BarrierServer (n : Nat) where
  interval : Time
  hostCores : Nat
  nextBarrierTime : Time
  globalTime : Time
  localClock : Fin n → Time
  acquire : Fin n → Bool
  coreThread : Fin n → Option ThreadId
  toRelease : List (Fin n)
  /-- `isCoreRunning`: the running thread of a core that runs. -/
  running : Fin n → Option ThreadId
  /-- The `synchronize` call of the core's thread that has not returned. -/
  inside : Fin n → Option Time
  /-- How often the core was signalled since that call. Written and never
  read. -/
  signals : Fin n → Nat
  /-- Every advance of the barrier time. Written and never read. -/
  advances : List (Advance n)

/-- What happens outside the server: the running threads afterwards, and the
threads for which `HOOK_THREAD_MIGRATE` was called. -/
structure Hook (n : Nat) where
  running : Fin n → Option ThreadId
  migrated : List ThreadId := []
  /-- Some thread runs or starts without being the running thread of a core. -/
  others : Bool := false
  /-- `getNextTimeout` is below `MaxTime`. -/
  timeout : Bool := true

/-- Why a call stops the simulation, or is not one of the calls considered. -/
inductive Stop where
  | unreleased
  | deadlocked
  | rounds
  | outside
  deriving DecidableEq, Repr

namespace BarrierServer

variable {n : Nat} (server : BarrierServer n)

/-- The core's thread waits in the barrier, or was taken out of it and not yet
signalled. -/
def Blocked (core : Fin n) : Prop :=
  server.acquire core = true ∨ core ∈ server.toRelease

instance (core : Fin n) : Decidable (server.Blocked core) :=
  inferInstanceAs (Decidable (_ ∨ _))

/-- Threads that wait in the barrier neither stop nor migrate, and no thread
runs on two cores. -/
structure Legal (hook : Hook n) : Prop where
  kept : ∀ core, server.Blocked core → hook.running core = server.running core
  migrated : ∀ thread ∈ hook.migrated, ∀ core, server.Blocked core →
    server.running core ≠ some thread
  once : ∀ first second, hook.running first ≠ none →
    hook.running first = hook.running second → first = second

instance (hook : Hook n) : Decidable (server.Legal hook) :=
  decidable_of_iff
    ((∀ core, server.Blocked core →
        hook.running core = server.running core) ∧
      (∀ thread ∈ hook.migrated, ∀ core, server.Blocked core →
        server.running core ≠ some thread) ∧
      ∀ first second, hook.running first ≠ none →
        hook.running first = hook.running second → first = second)
    ⟨fun ⟨kept, migrated, once⟩ => ⟨kept, migrated, once⟩,
      fun legal => ⟨legal.kept, legal.migrated, legal.once⟩⟩

/-- `doRelease`; the loop ends when the count or the list is used up. -/
def doRelease : Nat → BarrierServer n → BarrierServer n
  | 0, server => server
  | count + 1, server =>
      match server.toRelease.getLast? with
      | none => server
      | some core =>
          doRelease count
            { server with
              toRelease := server.toRelease.dropLast
              signals := update server.signals core
                (server.signals core + 1) }

def releaseThread (thread : ThreadId) : BarrierServer n :=
  doRelease 1
    { server with
      localClock := fun core =>
        if server.acquire core = true ∧ server.coreThread core = some thread
        then 0 else server.localClock core }

/-- A change outside the server; every migration calls `threadMigrate`. -/
def hooked (hook : Hook n) : BarrierServer n :=
  hook.migrated.foldl releaseThread { server with running := hook.running }

def isBarrierReached : Bool :=
  (List.finRange n).all (fun core => (server.running core).isNone ||
    decide (server.nextBarrierTime ≤ server.localClock core)) &&
  (List.finRange n).any fun core => (server.running core).isSome

/-- The cores in the barrier that are below the new barrier time. -/
def leaving : List (Fin n) :=
  (List.finRange n).filter fun core =>
    decide (server.localClock core < server.nextBarrierTime) &&
      server.acquire core

/-- The loop over the cores in `barrierRelease`. -/
def releaseCores (caller : Option ThreadId) : BarrierServer n :=
  { server with
    acquire := fun core =>
      server.acquire core && !decide (core ∈ server.leaving)
    toRelease := server.toRelease ++ server.leaving.filter fun core =>
      decide (server.coreThread core ≠ caller) }

/-- `m_next_barrier_time += m_barrier_interval`. -/
def advanceTime (before : Fin n → Option ThreadId) : BarrierServer n :=
  { server with
    nextBarrierTime := server.nextBarrierTime + server.interval
    advances := server.advances ++
      [⟨server.nextBarrierTime, server.localClock, before, server.running⟩] }

/-- How the loop of `barrierRelease` ends: by the early return, or with cores
taken out and whether the caller has to wait. -/
inductive Round (n : Nat) where
  | returned (server : BarrierServer n)
  | resumed (server : BarrierServer n) (mustWait : Bool)

/-- `HOOK_PERIODIC` at the barrier time. -/
def periodic (hook : Hook n) : BarrierServer n :=
  { server with globalTime := server.nextBarrierTime }.hooked hook

def anyThreadRunning (hook : Hook n) : Bool :=
  hook.others || (List.finRange n).any fun core => (server.running core).isSome

/-- The state of one round before the loop over the cores. -/
def nextRound (before : Fin n → Option ThreadId) (hook : Hook n) :
    BarrierServer n :=
  (server.periodic hook).advanceTime before

/-- The caller is none of the cores that leave. -/
def mustWait (caller : Option ThreadId) : Bool :=
  server.leaving.all fun core => decide (server.coreThread core ≠ caller)

/-- The loop of `barrierRelease`, with a bound on its rounds. The hooks are
what happens in the `HOOK_PERIODIC` of every round. -/
def releaseLoop (caller : Option ThreadId) (untilRelease : Bool)
    (before : Fin n → Option ThreadId) (hooks : Nat → Hook n) :
    Nat → Nat → BarrierServer n → Except Stop (Round n)
  | 0, _, _ => .error .rounds
  | bound + 1, round, server =>
      if ¬ server.Legal (hooks round) then
        .error .outside
      else if untilRelease &&
          (server.periodic (hooks round)).anyThreadRunning (hooks round) then
        .ok (.returned (server.periodic (hooks round)))
      else if untilRelease && !(hooks round).timeout then
        .error .deadlocked
      else if (server.nextRound before (hooks round)).leaving = [] then
        releaseLoop caller untilRelease before hooks bound (round + 1)
          ((server.nextRound before (hooks round)).releaseCores caller)
      else
        .ok (.resumed
          ((server.nextRound before (hooks round)).releaseCores caller)
          ((server.nextRound before (hooks round)).mustWait caller))

/-- What the simulation does not decide: the hooks, the order in which the
cores are released, and a bound on the rounds. -/
structure Choices (n : Nat) where
  hooks : Nat → Hook n
  shuffle : List (Fin n) → List (Fin n) := id
  bound : Nat

/-- `barrierRelease`: the new state and whether the caller has to wait. -/
def barrierRelease (caller : Option ThreadId) (untilRelease : Bool)
    (choices : Choices n) : Except Stop (BarrierServer n × Bool) :=
  if server.toRelease ≠ [] then
    .error .unreleased
  else do
    match ← releaseLoop caller untilRelease server.running choices.hooks
        choices.bound 0 server with
    | .returned after => return (after, false)
    | .resumed after mustWait =>
        let order := choices.shuffle after.toRelease
        if order.isPerm after.toRelease then
          return (doRelease after.hostCores { after with toRelease := order },
            mustWait)
        else
          .error .outside

def signal (choices : Choices n) : Except Stop (BarrierServer n) :=
  if server.isBarrierReached then
    (server.barrierRelease none false choices).map Prod.fst
  else
    .ok server

/-- The thread of a core enters the barrier. -/
def enter (core : Fin n) (thread : ThreadId) (time : Time) :
    BarrierServer n :=
  { server with
    localClock := update server.localClock core time
    acquire := update server.acquire core true
    coreThread := update server.coreThread core (some thread)
    inside := update server.inside core (some time)
    signals := update server.signals core 0 }

/-- The thread of a core leaves `synchronize`. -/
def leave (core : Fin n) : BarrierServer n :=
  { server with inside := update server.inside core none }

/-- `synchronize`: the new state and whether the call has returned. -/
def synchronize (core : Fin n) (thread : ThreadId) (time : Time)
    (choices : Choices n) : Except Stop (BarrierServer n × Bool) :=
  if time < server.nextBarrierTime then
    .ok (server, true)
  else
    let entered := (doRelease 1 server).enter core thread time
    if entered.isBarrierReached then do
      let (after, mustWait) ←
        entered.barrierRelease (some thread) false choices
      return if mustWait then (after, false) else (after.leave core, true)
    else
      .ok (entered, false)

/-- `threadStall` and `threadExit`, after the change of the running threads. -/
def threadStop (thread : ThreadId) (choices : Choices n) :
    Except Stop (BarrierServer n) :=
  (server.releaseThread thread).signal choices

def advance (choices : Choices n) : Except Stop (BarrierServer n) :=
  (server.barrierRelease none true choices).map Prod.fst

inductive Action (n : Nat) where
  | synchronize (core : Fin n) (time : Time) (choices : Choices n)
  /-- A thread stalls or exits. -/
  | stop (thread : ThreadId) (change : Hook n) (choices : Choices n)
  /-- Threads are resumed and placed on cores. -/
  | resume (change : Hook n)
  /-- `advance`, called when no thread runs. -/
  | advance (choices : Choices n)
  /-- A signalled thread returns from `synchronize`. -/
  | leave (core : Fin n)

/-- A step, and the core and time of the `synchronize` that returned in it. -/
def step : Action n → Except Stop (BarrierServer n × Option (Fin n × Time))
  | .synchronize core time choices =>
      match server.running core, server.inside core with
      | some thread, none => do
          let (after, returned) ←
            server.synchronize core thread time choices
          return (after, if returned then some (core, time) else none)
      | _, _ => .error .outside
  | .stop thread change choices =>
      if server.Legal change ∧
          ∀ core, server.Blocked core → server.running core ≠ some thread then do
        let after ← (server.hooked change).threadStop thread choices
        return (after, none)
      else
        .error .outside
  | .resume change =>
      if server.Legal change then
        .ok (server.hooked change, none)
      else
        .error .outside
  | .advance choices =>
      if ∀ core, server.running core = none then do
        let after ← server.advance choices
        return (after, none)
      else
        .error .outside
  | .leave core =>
      match server.inside core with
      | none => .error .outside
      | some time =>
          if server.Blocked core then
            .error .outside
          else
            .ok (server.leave core, some (core, time))

def initial (n interval hostCores : Nat) : BarrierServer n where
  interval := interval
  hostCores := hostCores
  nextBarrierTime := interval
  globalTime := 0
  localClock := fun _ => 0
  acquire := fun _ => false
  coreThread := fun _ => none
  toRelease := []
  running := fun _ => none
  inside := fun _ => none
  signals := fun _ => 0
  advances := []

end BarrierServer

end ChipletSniper.Threads
