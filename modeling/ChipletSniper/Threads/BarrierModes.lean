import ChipletSniper.Threads.BarrierSync

/-!
# The barrier in its modes

The barrier server with its groups, in detailed mode, in fast-forward mode and
disabled, and the fast-forward manager that switches it.  A call of
`barrierRelease` pauses at every `HOOK_PERIODIC`, in which the mode may change.
-/

namespace ChipletSniper.Threads

/-- A call of `barrierRelease` that is in a `HOOK_PERIODIC`. -/
structure Release (n : Nat) where
  /-- The core and the thread that entered, if `synchronize` is the caller. -/
  caller : Option (Fin n × ThreadId)
  untilRelease : Bool
  /-- The threads that ran at the call. -/
  before : Fin n → Option ThreadId

/-- `BarrierSyncServer` with its modes. -/
structure ModalServer (n : Nat) extends BarrierServer n where
  coreGroup : Fin n → Option (Fin n)
  fastforward : Bool
  disable : Bool
  release : Option (Release n)

namespace ModalServer

open BarrierServer (doRelease)

variable {n : Nat} (server : ModalServer n)

/-- `isCoreRunning`, with the siblings. -/
def isCoreRunning (core : Fin n) : Bool :=
  (server.running core).isSome ||
    !server.fastforward && (List.finRange n).any fun sibling =>
      decide (server.coreGroup sibling = some core) &&
        (server.running sibling).isSome

/-- The loop of `isBarrierReached`, with `single_core_barrier_reached`. -/
def reachedLoop : List (Fin n) → Bool → Bool
  | [], reached => reached
  | core :: rest, reached =>
      if server.fastforward then
        if server.acquire core then reachedLoop rest true
        else if server.isCoreRunning core then false
        else reachedLoop rest reached
      else if (server.coreGroup core).isSome then reachedLoop rest reached
      else if server.isCoreRunning core then
        if server.localClock core < server.nextBarrierTime then false
        else reachedLoop rest true
      else reachedLoop rest reached

def isBarrierReached : Bool :=
  server.reachedLoop (List.finRange n) false

/-- The last of some times. -/
def latest (times : Fin n → Time) (time : Time) : Time :=
  (List.finRange n).foldl (fun time core => max time (times core)) time

/-- The loop of `barrierRelease` up to its `HOOK_PERIODIC`. -/
def callHooks (release : Release n) : ModalServer n :=
  { server with
    globalTime := server.nextBarrierTime
    release := some release }

/-- `barrierRelease` up to its first `HOOK_PERIODIC`. -/
def barrierRelease (caller : Option (Fin n × ThreadId)) (untilRelease : Bool) :
    Except Stop (ModalServer n) :=
  if server.toRelease ≠ [] then
    .error .unreleased
  else
    let nextBarrierTime :=
      if server.fastforward then
        latest server.localClock server.nextBarrierTime
      else server.nextBarrierTime
    .ok ({ server with nextBarrierTime := nextBarrierTime }.callHooks
      ⟨caller, untilRelease, server.running⟩)

/-- `barrierRelease` returns; a caller that does not have to wait leaves the
barrier. -/
def returned (release : Release n) (mustWait : Bool) : ModalServer n :=
  let server := { server with release := none }
  match release.caller with
  | some (core, _) =>
      if mustWait then server
      else { server with toBarrierServer := server.toBarrierServer.leave core }
  | none => server

/-- The time advances and the cores below it are taken out. -/
def releaseCores (release : Release n) : ModalServer n :=
  { server with
    toBarrierServer :=
      (server.toBarrierServer.advanceTime release.before).releaseCores
        (release.caller.map Prod.snd) }

/-- What the simulation does not decide after a `HOOK_PERIODIC`: whether some
thread runs without being the running thread of a core, whether there is a
timeout, and the order in which the cores are released. -/
structure HookResult (n : Nat) where
  others : Bool := false
  timeout : Bool := true
  shuffle : List (Fin n) → List (Fin n) := id

/-- The loop of `barrierRelease` after its `HOOK_PERIODIC`. -/
def hooksCalled (release : Release n) (result : HookResult n) :
    Except Stop (ModalServer n) :=
  let advanced := server.toBarrierServer.advanceTime release.before
  if release.untilRelease && (result.others ||
      (List.finRange n).any fun core => (server.running core).isSome) then
    .ok (server.returned release false)
  else if release.untilRelease && !result.timeout then
    .error .deadlocked
  else if server.disable then
    .ok (server.returned release false)
  else if advanced.leaving = [] then
    .ok ((server.releaseCores release).callHooks release)
  else
    let after := server.releaseCores release
    let order := result.shuffle after.toRelease
    if order.isPerm after.toRelease then
      let count := if after.fastforward then order.length else after.hostCores
      .ok ({ after with
        toBarrierServer :=
          doRelease count { after.toBarrierServer with toRelease := order }
        }.returned release (advanced.mustWait (release.caller.map Prod.snd)))
    else
      .error .outside

/-! ## The calls -/

def signal : Except Stop (ModalServer n) :=
  if server.disable then .ok server
  else if server.isBarrierReached then server.barrierRelease none false
  else .ok server

/-- `master_core_id`. -/
def masterCore (core : Fin n) : Fin n :=
  if server.fastforward then core else (server.coreGroup core).getD core

/-- The thread of a core enters the barrier after another one was released. -/
def enter (core : Fin n) (thread : ThreadId) (time : Time) : ModalServer n :=
  { server with
    toBarrierServer :=
      (doRelease 1 server.toBarrierServer).enter core thread time }

def synchronize (core : Fin n) (thread : ThreadId) (time : Time) :
    Except Stop (ModalServer n) :=
  if server.disable then .ok server
  else
    let master := server.masterCore core
    if server.acquire master then .error .outside
    else if time < server.nextBarrierTime && !server.fastforward then .ok server
    else
      let entered := server.enter master thread time
      if entered.isBarrierReached then
        entered.barrierRelease (some (master, thread)) false
      else .ok entered

/-- `threadMigrate`. -/
def releaseThread (thread : ThreadId) : ModalServer n :=
  { server with toBarrierServer := server.toBarrierServer.releaseThread thread }

/-- `threadStall` and `threadExit`. -/
def threadStop (thread : ThreadId) : Except Stop (ModalServer n) :=
  (server.releaseThread thread).signal

def advance : Except Stop (ModalServer n) :=
  server.barrierRelease none true

def abortBarrier : ModalServer n :=
  { server with
    acquire := fun _ => false
    signals := fun core =>
      if server.acquire core then server.signals core + 1
      else server.signals core }

def setDisable (disable : Bool) : ModalServer n :=
  let server := { server with disable := disable }
  if disable then server.abortBarrier else server

/-- `setFastForward`; without a time, `MaxTime` is passed. -/
def setFastForward (fastforward : Bool) (nextBarrierTime : Option Time) :
    ModalServer n :=
  { server with
    fastforward := fastforward
    nextBarrierTime := match nextBarrierTime with
      | none => server.nextBarrierTime
      | some time => max server.nextBarrierTime time }

/-! ## The fast-forward manager -/

/-- `FastForwardPerformanceManager::step`, with the elapsed times. -/
def fastForwardStep (elapsed : Fin n → Time) : ModalServer n :=
  server.setFastForward true (some (latest elapsed 0))

/-- `FastForwardPerformanceManager::enable`. -/
def enableFastForward (elapsed : Fin n → Time) : ModalServer n :=
  (server.setFastForward true none).abortBarrier.fastForwardStep elapsed

/-- `barrier_next` of `disable`, with the elapsed times of the cores whose
thread runs. -/
def barrierNext (elapsed : Fin n → Option Time) : Time :=
  latest (fun core => (elapsed core).getD 0) 0

/-- `FastForwardPerformanceManager::disable`. -/
def disableFastForward (elapsed : Fin n → Option Time) : ModalServer n :=
  (server.setFastForward false (some (barrierNext elapsed))).abortBarrier

/-! ## The steps -/

inductive ModalAction (n : Nat) where
  | synchronize (core : Fin n) (thread : ThreadId) (time : Time)
  /-- A thread stalls or exits. -/
  | stop (thread : ThreadId)
  | advance
  /-- A signalled thread returns from `synchronize`. -/
  | leave (core : Fin n)
  /-- `HOOK_THREAD_MIGRATE`. -/
  | migrate (thread : ThreadId)
  /-- The running threads of the cores change. -/
  | run (running : Fin n → Option ThreadId)
  | enable (elapsed : Fin n → Time)
  | disable (elapsed : Fin n → Option Time)
  /-- `FastForwardPerformanceManager::periodic`. -/
  | periodic (elapsed : Fin n → Time)
  | setDisable (disable : Bool)
  /-- The callbacks of a `HOOK_PERIODIC` have returned. -/
  | hooksCalled (result : HookResult n)

/-- A step.  The calls wait for the lock while a release is in its hooks. -/
def step : ModalAction n → Except Stop (ModalServer n)
  | .synchronize core thread time =>
      if server.release.isSome then .error .outside
      else server.synchronize core thread time
  | .stop thread =>
      if server.release.isSome then .error .outside
      else server.threadStop thread
  | .advance =>
      if server.release.isSome then .error .outside else server.advance
  | .leave core =>
      if server.release.isSome || decide (server.Blocked core) then
        .error .outside
      else
        .ok { server with toBarrierServer := server.toBarrierServer.leave core }
  | .migrate thread => .ok (server.releaseThread thread)
  | .run running => .ok { server with running := running }
  | .enable elapsed => .ok (server.enableFastForward elapsed)
  | .disable elapsed => .ok (server.disableFastForward elapsed)
  | .periodic elapsed =>
      if server.release.isSome && server.fastforward then
        .ok (server.fastForwardStep elapsed)
      else .error .outside
  | .setDisable disable => .ok (server.setDisable disable)
  | .hooksCalled result =>
      match server.release with
      | none => .error .outside
      | some release => server.hooksCalled release result

def initial (n interval hostCores : Nat) (coreGroup : Fin n → Option (Fin n)) :
    ModalServer n where
  toBarrierServer := BarrierServer.initial n interval hostCores
  coreGroup := coreGroup
  fastforward := false
  disable := false
  release := none

end ModalServer

end ChipletSniper.Threads
