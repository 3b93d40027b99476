import Mathlib.Data.List.FinRange
import ChipletSniper.Threads.ThreadManager
import Mathlib.Algebra.Group.Nat.Defs

/-!
# The barrier of the SMT threads

The SMT threads of a core only execute a cycle together. A thread with enough
instructions waits in the barrier, and the last one to arrive releases those
that should fetch more.
-/

namespace ChipletSniper.Rob

open Threads (ThreadId)

/-- `SmtTimer::SmtThread`. -/
structure SmtThread where
  thread : Option ThreadId := none
  running : Bool := false
  inBarrier : Bool := false
  deriving DecidableEq

/-- Where the `simulate` call of a thread is. -/
inductive SmtCall (k : Nat) where
  | outside
  /-- In `cond.wait`, without the lock. -/
  | waiting (slot : Fin k)
  /-- In `client->synchronize()`, without the lock. -/
  | syncing (slot : Fin k)
  deriving DecidableEq

/-- `SmtTimer` with `k` registered threads. -/
structure SmtTimer (k : Nat) where
  /-- The number of the thread's core. -/
  core : Fin k → Nat
  /-- The thread's core has a clock skew minimization client. -/
  client : Fin k → Bool
  threads : Fin k → SmtThread
  inSync : Bool
  enabled : Bool
  executeThread : Option (Fin k)
  calls : ThreadId → SmtCall k

/-- The virtual functions of the timer at one moment. The surplus of a thread
is a part of its queue, whose capacity is a number of 32 bits. -/
structure SmtLoad (k : Nat) where
  threadNumSurplusInstructions : Fin k → Nat
  threadHasEnoughInstructions : Fin k → Bool
  queued : ∀ slot, threadNumSurplusInstructions slot < 2 ^ 32

/-- Why an event does not get to its end. -/
inductive SmtStop where
  /-- The loop of `barrierRelease` needs more turns. -/
  | endless
  /-- The assertion in `barrier`. -/
  | noThread
  | outside
  deriving DecidableEq, Repr

namespace SmtTimer

variable {k : Nat} (timer : SmtTimer k)

def setThread (slot : Fin k) (thread : SmtThread) : SmtTimer k :=
  { timer with threads := Function.update timer.threads slot thread }

def setBarrier (slot : Fin k) (inBarrier : Bool) : SmtTimer k :=
  timer.setThread slot { timer.threads slot with inBarrier := inBarrier }

def setCall (thread : ThreadId) (call : SmtCall k) : SmtTimer k :=
  { timer with calls := Function.update timer.calls thread call }

def findSmtThreadFromThread (thread : ThreadId) : Option (Fin k) :=
  (List.finRange k).find? fun slot =>
    decide ((timer.threads slot).thread = some thread)

def findSmtThreadFromCore (core : Nat) : Option (Fin k) :=
  (List.finRange k).find? fun slot => decide (timer.core slot = core)

def isBarrierReached : Bool :=
  !timer.inSync &&
    (List.finRange k).all (fun slot =>
      !(timer.threads slot).running || (timer.threads slot).inBarrier) &&
    (List.finRange k).any fun slot => (timer.threads slot).inBarrier

end SmtTimer

/-! ## Releasing -/

/-- The local state of `barrierRelease`. -/
structure Release (k : Nat) where
  timer : SmtTimer k
  numRunning : Nat
  releaseMe : Bool

namespace Release

variable {k : Nat} (state : Release k)

/-- A caller in the barrier is told, another thread is signalled. -/
def release (me : Option (Fin k)) (slot : Fin k) : Release k :=
  if me = some slot then { state with releaseMe := true }
  else { state with timer := state.timer.setBarrier slot false }

def count (running : Bool) : Release k :=
  if running then { state with numRunning := state.numRunning + 1 } else state

def execute (slot : Fin k) : Release k :=
  { state with timer := { state.timer with executeThread := some slot } }

/-- The loop that releases the threads for which more instructions are
wanted. -/
def releaseWanted (load : SmtLoad k) (releaseAll : Bool)
    (me : Option (Fin k)) : List (Fin k) → Release k → Release k
  | [], state => state
  | slot :: rest, state =>
      let thread := state.timer.threads slot
      if thread.inBarrier = false then
        releaseWanted load releaseAll me rest (state.count thread.running)
      else if load.threadHasEnoughInstructions slot then
        releaseWanted load releaseAll me rest state
      else if releaseAll then
        releaseWanted load releaseAll me rest
          ((state.count thread.running).release me slot)
      else
        ((state.count thread.running).release me slot).execute slot

/-- The loop that releases running threads below the limit. -/
def releaseLowest (load : SmtLoad k) (releaseAll : Bool)
    (me : Option (Fin k)) (limit : Nat) : List (Fin k) → Release k → Release k
  | [], state => state
  | slot :: rest, state =>
      let thread := state.timer.threads slot
      if thread.inBarrier = true ∧ thread.running = true ∧
          load.threadNumSurplusInstructions slot < limit then
        if releaseAll then
          releaseLowest load releaseAll me limit rest
            ((state.count true).release me slot)
        else
          ((state.count true).release me slot).execute slot
      else
        releaseLowest load releaseAll me limit rest state

/-- `while (num_running == 0)`, with a bound on its turns. The limit is an
unsigned number of 64 bits. -/
def search (load : SmtLoad k) (releaseAll : Bool) (me : Option (Fin k)) :
    Nat → Nat → Release k → Option (Release k)
  | 0, _, _ => none
  | turns + 1, limit, state =>
      if state.numRunning = 0 then
        search load releaseAll me turns (limit * 2 % 2 ^ 64)
          (state.releaseLowest load releaseAll me limit (List.finRange k))
      else
        some state

end Release

namespace SmtTimer

variable {k : Nat} (timer : SmtTimer k)

/-- The state of `barrierRelease` before the search. -/
def wanted (load : SmtLoad k) (releaseAll : Bool) (me : Option (Fin k)) :
    Release k :=
  Release.releaseWanted load releaseAll me (List.finRange k)
    ⟨{ timer with executeThread := me }, 0, false⟩

def barrierRelease (turns : Nat) (load : SmtLoad k) (releaseAll : Bool)
    (me : Option (Fin k)) : Except SmtStop (Bool × SmtTimer k) :=
  match (timer.wanted load releaseAll me).search load releaseAll me turns
      1 with
  | none => .error .endless
  | some state => .ok (state.releaseMe, state.timer)

def signalBarrier (turns : Nat) (load : SmtLoad k) :
    Except SmtStop (SmtTimer k) :=
  if timer.isBarrierReached then
    (timer.barrierRelease turns load false none).map Prod.snd
  else
    .ok timer

/-! ## Simulating -/

/-- The end of `simulate`, after the synchronization. -/
def finish (turns : Nat) (thread : ThreadId) (slot : Fin k)
    (load : SmtLoad k) : Except SmtStop (SmtTimer k) := do
  let (_, released) ← timer.barrierRelease turns load true (some slot)
  return released.setCall thread .outside

/-- The call has left the barrier. If it executes the cycle it gives up the
lock to synchronize. -/
def proceed (turns : Nat) (thread : ThreadId) (slot : Fin k)
    (load : SmtLoad k) : Except SmtStop (SmtTimer k) :=
  if timer.executeThread = some slot then
    let executed := { timer with executeThread := none }
    if timer.client slot then
      .ok ({ executed with inSync := true }.setCall thread (.syncing slot))
    else
      executed.finish turns thread slot load
  else
    .ok (timer.setCall thread .outside)

/-- `barrier` up to the point where the call waits or leaves. -/
def barrier (turns : Nat) (thread : ThreadId) (slot : Fin k)
    (before after : SmtLoad k) : Except SmtStop (SmtTimer k) :=
  if (timer.threads slot).thread = none then
    .error .noThread
  else
    let entered := timer.setBarrier slot true
    if entered.isBarrierReached then do
      let (releaseMe, released) ←
        entered.barrierRelease turns before false (some slot)
      if releaseMe then
        (released.setBarrier slot false).proceed turns thread slot after
      else
        .ok (released.setCall thread (.waiting slot))
    else
      .ok (entered.setCall thread (.waiting slot))

/-- The instructions are looked at before and after the cycle. -/
def simulate (turns : Nat) (thread : ThreadId) (slot : Fin k)
    (before after : SmtLoad k) : Except SmtStop (SmtTimer k) :=
  if 128 < before.threadNumSurplusInstructions slot ∧ timer.enabled then
    timer.barrier turns thread slot before after
  else
    .ok timer

/-! ## Hooks -/

def setRunning (thread : ThreadId) (running : Bool) : SmtTimer k :=
  match timer.findSmtThreadFromThread thread with
  | none => timer
  | some slot =>
      timer.setThread slot { timer.threads slot with running := running }

/-- The thread leaves its slot, and the barrier. -/
def vacate (thread : ThreadId) : SmtTimer k :=
  match timer.findSmtThreadFromThread thread with
  | none => timer
  | some slot => timer.setThread slot {}

def threadMigrate (thread : ThreadId) (core : Option Nat) : SmtTimer k :=
  let left := timer.vacate thread
  match core.bind left.findSmtThreadFromCore with
  | none => left
  | some slot =>
      left.setThread slot
        { left.threads slot with
          thread := some thread
          running := true }

def disable : SmtTimer k :=
  { timer with
    enabled := false
    threads := fun slot => { timer.threads slot with inBarrier := false } }

/-- What happens while the lock is held. -/
inductive Event (k : Nat) where
  | simulate (thread : ThreadId) (slot : Fin k) (before after : SmtLoad k)
  /-- A thread returns from `cond.wait`: it was signalled, or the system call
  was interrupted. -/
  | wake (thread : ThreadId) (after : SmtLoad k)
  /-- A thread returns from `client->synchronize()`. -/
  | synchronized (thread : ThreadId) (load : SmtLoad k)
  | start (thread : ThreadId)
  | exit (thread : ThreadId) (load : SmtLoad k)
  | stall (thread : ThreadId) (load : SmtLoad k)
  | resume (thread : ThreadId)
  | migrate (thread : ThreadId) (core : Option Nat)
  | enable
  | disable

def step (turns : Nat) : Event k → Except SmtStop (SmtTimer k)
  | .simulate thread slot before after =>
      if timer.calls thread = .outside then
        timer.simulate turns thread slot before after
      else
        .error .outside
  | .wake thread after =>
      match timer.calls thread with
      | .waiting slot => timer.proceed turns thread slot after
      | _ => .error .outside
  | .synchronized thread load =>
      match timer.calls thread with
      | .syncing slot =>
          { timer with inSync := false }.finish turns thread slot load
      | _ => .error .outside
  | .start thread | .resume thread => .ok (timer.setRunning thread true)
  | .exit thread load | .stall thread load =>
      (timer.setRunning thread false).signalBarrier turns load
  | .migrate thread core => .ok (timer.threadMigrate thread core)
  | .enable => .ok { timer with enabled := true }
  | .disable => .ok timer.disable

def run (turns : Nat) (events : List (Event k)) :
    Except SmtStop (SmtTimer k) :=
  events.foldlM (fun state event => state.step turns event) timer

/-- The constructor, after every SMT thread was registered. Before the first
release `execute_thread` is the first thread. -/
def initial (core : Fin k → Nat) (client : Fin k → Bool) : SmtTimer k where
  core := core
  client := client
  threads := fun _ => {}
  inSync := false
  enabled := true
  executeThread := (List.finRange k).head?
  calls := fun _ => .outside

end SmtTimer

end ChipletSniper.Rob
