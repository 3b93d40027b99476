import ChipletSniper.Threads.ThreadManager
import Mathlib.Data.List.Perm.Basic

/-!
# Simulated futexes

The futex part of the system call server with the thread manager it calls.
What a call reads from the machine (the word at the address, the timeout, the
instruction count of the core) is an argument of the call.
-/

namespace ChipletSniper.Threads

abbrev Address := Nat

/-- `int`. -/
abbrev Word := BitVec 32

/-- `SubsecondTime::MaxTime`, for a wait without a timeout. -/
def maxTime : Time := 0xffffffffffffffff

/-- `FUTEX_BITSET_MATCH_ANY`. -/
def bitsetMatchAny : Word := 0xffffffff#32

/-- `SimFutex::Waiter`. -/
structure Waiter where
  thread : ThreadId
  mask : Word
  timeout : Time
  deriving DecidableEq, Repr

/-- The timeout is at or before `time`. -/
def Waiter.expired (time : Time) (waiter : Waiter) : Bool :=
  waiter.timeout ≤ time

/-- `mask & it->mask`. -/
def Waiter.matching (mask : Word) (waiter : Waiter) : Bool :=
  mask &&& waiter.mask ≠ 0

/-- Why a waiter was resumed. -/
inductive Cause where
  | wake
  | timeout
  deriving DecidableEq, Repr

/-- The commands `handleFutexCall` accepts. -/
inductive FutexCmd where
  | wait
  | waitBitset
  | wake
  | wakeBitset
  | wakeOp
  | cmpRequeue
  deriving DecidableEq, Repr

/-- `futex_args_t`, with the command already decoded from `op`. -/
structure FutexArgs where
  uaddr : Address
  cmd : FutexCmd
  val : Word := 0
  val2 : Word := 0
  uaddr2 : Address := 0
  val3 : Word := 0
  deriving DecidableEq, Repr

/-- What a call reads from the machine it runs on. -/
structure Machine where
  /-- The word at `uaddr`. -/
  actVal : Word := 0
  /-- The word at `uaddr2` that `futexDoOp` reads. -/
  oldVal : Word := 0
  /-- The time in `*timeout`, when a timeout is given. -/
  timeoutVal : Option Time := none
  instructionCount : Nat := 1
  deriving DecidableEq, Repr

/-- The decoded `FUTEX_OP_*` and the new value of the word, `none` for an
operation the server rejects. -/
def futexNewVal (op oparg oldVal : Word) : Option Word :=
  match op.toNat with
  | 0 => some oparg
  | 1 => some (oldVal + oparg)
  | 2 => some (oldVal ||| oparg)
  | 3 => some (oldVal &&& ~~~oparg)
  | 4 => some (oldVal ^^^ oparg)
  | _ => none

/-- The decoded `FUTEX_OP_CMP_*`, `none` for one the server rejects. -/
def futexCompare (cmp cmparg oldVal : Word) : Option Bool :=
  match cmp.toNat with
  | 0 => some (oldVal == cmparg)
  | 1 => some (oldVal != cmparg)
  | 2 => some (oldVal.slt cmparg)
  | 3 => some (oldVal.sle cmparg)
  | 4 => some (cmparg.slt oldVal)
  | 5 => some (cmparg.sle oldVal)
  | _ => none

/-- `futexDoOp`: the word it writes back and whether the comparison holds. -/
def futexDoOp (encodedOp oldVal : Word) : Option (Word × Bool) := do
  let op := encodedOp.sshiftRight 28 &&& 7
  let cmp := encodedOp.sshiftRight 24 &&& 15
  let field := (encodedOp <<< 8).sshiftRight 20
  let cmparg := (encodedOp <<< 20).sshiftRight 20
  let oparg := if encodedOp.msb then 1#32 <<< (field.toNat % 32) else field
  let newVal ← futexNewVal op oparg oldVal
  let ret ← futexCompare cmp cmparg oldVal
  return (newVal, ret)

/-- `SyscallServer`. The waiting list of a futex is the one of the `SimFutex`
at its physical address. -/
structure SyscallServer where
  rescheduleCost : Time
  va2pa : ThreadId → Address → Address
  /-- The addresses in `m_futexes`. -/
  keys : List Address
  futexes : Address → List Waiter
  sleeping : List Waiter
  threads : ThreadManager
  /-- Why a thread was last taken out of a futex. Written and never read. -/
  cause : ThreadId → Option Cause

namespace SyscallServer

variable (server : SyscallServer)

def applyRescheduleCost (machine : Machine) (conditional : Bool) : Time :=
  if conditional = false then
    0
  else if machine.instructionCount = 0 then
    0
  else
    server.rescheduleCost

def setFutex (address : Address) (waiting : List Waiter) : SyscallServer :=
  { server with futexes := Function.update server.futexes address waiting }

/-- `m_futexes[address]` creates the entry. -/
def findFutexByUaddr (uaddr : Address) (thread : ThreadId) :
    SyscallServer × Address :=
  let address := server.va2pa thread uaddr
  ({ server with
      keys := if address ∈ server.keys then server.keys
        else server.keys ++ [address] },
    address)

/-- Resume a waiter with the message that tells it why. -/
def resume (waiter : Waiter) (cause : Cause) (time : Time) : SyscallServer :=
  { server with
    threads := server.threads.resumeThread waiter.thread time (cause == .wake)
    cause := Function.update server.cause waiter.thread (some cause) }

/-- `SimFutex::enqueueWaiter` up to the point where the thread blocks. -/
def enqueueWaiter (address : Address) (thread : ThreadId) (mask : Word)
    (timeout : Time) : SyscallServer :=
  let queued := server.setFutex address
    (server.futexes address ++ [⟨thread, mask, timeout⟩])
  { queued with
    threads := queued.threads.stallThread thread .futex
    cause := Function.update queued.cause thread none }

/-- `SimFutex::dequeueWaiter`. -/
def dequeueWaiter (address : Address) (mask : Word) (time : Time) :
    SyscallServer × Option ThreadId :=
  match (server.futexes address).find? (Waiter.matching mask) with
  | none => (server, none)
  | some waiter =>
      let erased := server.setFutex address
        ((server.futexes address).eraseP (Waiter.matching mask))
      (erased.resume waiter .wake time, some waiter.thread)

/-- `SimFutex::requeueWaiter`. -/
def requeueWaiter (address target : Address) :
    SyscallServer × Option ThreadId :=
  match server.futexes address with
  | [] => (server, none)
  | waiter :: rest =>
      let popped := server.setFutex address rest
      (popped.setFutex target (popped.futexes target ++ [waiter]),
        some waiter.thread)

/-- `SimFutex::wakeTimedOut`. -/
def wakeTimedOut (time : Time) (address : Address) : SyscallServer :=
  match (server.futexes address).find? (Waiter.expired time) with
  | none => server
  | some waiter =>
      let erased := server.setFutex address
        ((server.futexes address).eraseP (Waiter.expired time))
      erased.resume waiter .timeout time

/-- The loop over `wakeFutexOne`: the number of threads woken up. -/
def wakeLoop (address : Address) (mask : Word) (time : Time) :
    Nat → SyscallServer → Nat → SyscallServer × Nat
  | 0, server, woken => (server, woken)
  | rounds + 1, server, woken =>
      match server.dequeueWaiter address mask time with
      | (server, none) => (server, woken)
      | (server, some _) => wakeLoop address mask time rounds server (woken + 1)

/-- `for (int i = 0; i < n; i++)`. -/
def rounds (n : Word) : Nat := n.toInt.toNat

/-- The loop of `requeueWaiter` calls, with a bound on its rounds. -/
def requeueLoop (address target : Address) : Nat → SyscallServer → SyscallServer
  | 0, server => server
  | rounds + 1, server =>
      match server.requeueWaiter address target with
      | (server, none) => server
      | (server, some _) => requeueLoop address target rounds server

/-- The value and the end time of a call that returns at once; `none` when the
thread blocks. -/
abbrev Result := Option (Int × Time)

def eWouldBlock : Int := 11
def eAgain : Int := 11
def eTimedOut : Int := 110

def futexWait (thread : ThreadId) (uaddr : Address) (val actVal mask : Word)
    (currTime timeoutTime : Time) : SyscallServer × Result :=
  let (found, address) := server.findFutexByUaddr uaddr thread
  if val ≠ actVal then
    (found, some (-eWouldBlock, currTime))
  else
    (found.enqueueWaiter address thread mask timeoutTime, none)

/-- The end of `futexWake` and `futexWakeOp`. -/
def wokenUp (currTime : Time) (machine : Machine) :
    SyscallServer × Nat → SyscallServer × Result
  | (after, woken) =>
      (after, some (woken,
        currTime + server.applyRescheduleCost machine (decide (0 < woken))))

def futexWake (thread : ThreadId) (uaddr : Address) (nrWake mask : Word)
    (currTime : Time) (machine : Machine) : SyscallServer × Result :=
  let (found, address) := server.findFutexByUaddr uaddr thread
  let wakeTime := currTime + server.applyRescheduleCost machine true
  server.wokenUp currTime machine
    (wakeLoop address mask wakeTime (rounds nrWake) found 0)

/-- The second loop of `futexWakeOp`, which runs when the comparison held. -/
def wakeSecond (opRet : Bool) (address : Address) (wakeTime : Time)
    (nrWake : Word) : SyscallServer × Nat → SyscallServer × Nat
  | (server, woken) =>
      if opRet then
        wakeLoop address bitsetMatchAny wakeTime (rounds nrWake) server woken
      else
        (server, woken)

def futexWakeOp (thread : ThreadId) (uaddr uaddr2 : Address)
    (nrWake nrWake2 op : Word) (currTime : Time) (machine : Machine) :
    Option (SyscallServer × Result) := do
  let (found, address) := server.findFutexByUaddr uaddr thread
  let (found, address2) := found.findFutexByUaddr uaddr2 thread
  let (_, opRet) ← futexDoOp op machine.oldVal
  let wakeTime := currTime + server.applyRescheduleCost machine true
  return server.wokenUp currTime machine
    (wakeSecond opRet address2 wakeTime nrWake2
      (wakeLoop address bitsetMatchAny wakeTime (rounds nrWake) found 0))

/-- The second loop of `futexCmpRequeue`. -/
def requeueRest (thread : ThreadId) (address uaddr2 : Address)
    (currTime : Time) : SyscallServer × Nat → SyscallServer × Result
  | (server, woken) =>
      let (found, target) := server.findFutexByUaddr uaddr2 thread
      (requeueLoop address target (found.futexes address).length found,
        some (woken, currTime))

def futexCmpRequeue (thread : ThreadId) (uaddr : Address) (val : Word)
    (uaddr2 : Address) (val3 actVal : Word) (currTime : Time) :
    SyscallServer × Result :=
  let (found, address) := server.findFutexByUaddr uaddr thread
  if val3 ≠ actVal then
    (found, some (-eAgain, currTime))
  else
    requeueRest thread address uaddr2 currTime
      (wakeLoop address bitsetMatchAny currTime (rounds val) found 0)

/-- The timeout of a wait: absolute for `FUTEX_WAIT_BITSET`. -/
def timeoutTime (cmd : FutexCmd) (machine : Machine) (currTime : Time) : Time :=
  match machine.timeoutVal with
  | none => maxTime
  | some value =>
      if cmd = .waitBitset then value else currTime + value

/-- `handleFutexCall`; a failed assertion stops the simulation. -/
def handleFutexCall (thread : ThreadId) (args : FutexArgs) (machine : Machine)
    (currTime : Time) : Option (SyscallServer × Result) :=
  match args.cmd with
  | .wait =>
      some (server.futexWait thread args.uaddr args.val machine.actVal
        bitsetMatchAny currTime (timeoutTime args.cmd machine currTime))
  | .waitBitset =>
      some (server.futexWait thread args.uaddr args.val machine.actVal
        args.val3 currTime (timeoutTime args.cmd machine currTime))
  | .wake | .wakeBitset =>
      -- the source asks for `FUTEX_WAIT_BITSET` here, so both wake any mask
      some (server.futexWake thread args.uaddr args.val bitsetMatchAny
        currTime machine)
  | .wakeOp =>
      server.futexWakeOp thread args.uaddr args.uaddr2 args.val args.val2
        args.val3 currTime machine
  | .cmpRequeue =>
      if args.uaddr = args.uaddr2 then
        none
      else
        some (server.futexCmpRequeue thread args.uaddr args.val args.uaddr2
          args.val3 machine.actVal currTime)

/-- `handleSleepCall` up to the point where the thread blocks. -/
def handleSleepCall (thread : ThreadId) (wakeTime : Time) : SyscallServer :=
  { server with
    sleeping := server.sleeping ++ [⟨thread, 0, wakeTime⟩]
    threads := server.threads.stallThread thread .sleep }

/-- The first loop of `futexPeriodic`, which wakes one sleeping thread. -/
def wakeSleeper (time : Time) : SyscallServer :=
  match server.sleeping.find? (Waiter.expired time) with
  | none => server
  | some waiter =>
      { server with
        sleeping := server.sleeping.eraseP (Waiter.expired time)
        threads := server.threads.resumeThread waiter.thread time false }

/-- `futexPeriodic`. The map is visited in the order `visited`. -/
def futexPeriodic (time : Time) (visited : List Address) : SyscallServer :=
  visited.foldl (fun server address => server.wakeTimedOut time address)
    (server.wakeSleeper time)

end SyscallServer

/-- The calls in which a thread blocks. -/
inductive Blocked where
  | futexWait
  | sleep
  deriving DecidableEq, Repr

structure FutexSystem where
  server : SyscallServer
  pending : ThreadId → Option Blocked

namespace FutexSystem

inductive Action where
  | futex (thread : ThreadId) (args : FutexArgs) (machine : Machine)
      (time : Time)
  | sleep (thread : ThreadId) (wakeTime : Time)
  | periodic (time : Time) (visited : List Address)
  /-- A resumed thread leaves its call. -/
  | leave (thread : ThreadId)
  deriving DecidableEq, Repr

/-- The return of a futex call, or of a sleep. -/
structure Returned where
  thread : ThreadId
  value : Int
  time : Time
  deriving DecidableEq, Repr

variable (system : FutexSystem)

/-- The thread runs outside the server. -/
def Outside (thread : ThreadId) : Prop :=
  system.pending thread = none ∧ ¬ system.server.threads.Stalled thread

instance (thread : ThreadId) : Decidable (system.Outside thread) :=
  inferInstanceAs (Decidable (_ ∧ _))

def block (server : SyscallServer) (thread : ThreadId) (blocked : Blocked) :
    FutexSystem :=
  { server := server
    pending := Function.update system.pending thread (some blocked) }

/-- What the return of a blocked call reports: `getWakeupMsg` tells a wake
from a timeout. -/
def value (thread : ThreadId) : Blocked → Int
  | .futexWait =>
      if (system.server.threads.wakeup thread).msg then 0
      else -SyscallServer.eTimedOut
  | .sleep => 0

def step : Action → Option (FutexSystem × Option Returned)
  | .futex thread args machine time =>
      if system.Outside thread ∧ (args.cmd = .waitBitset → args.val3 ≠ 0) then
        (system.server.handleFutexCall thread args machine time).map fun
          | (server, some (value, ended)) =>
              ({ system with server := server }, some ⟨thread, value, ended⟩)
          | (server, none) => (system.block server thread .futexWait, none)
      else
        none
  | .sleep thread wakeTime =>
      if system.Outside thread then
        some (system.block (system.server.handleSleepCall thread wakeTime)
          thread .sleep, none)
      else
        none
  | .periodic time visited =>
      if visited.Perm system.server.keys then
        some ({ system with server := system.server.futexPeriodic time visited },
          none)
      else
        none
  | .leave thread =>
      if system.server.threads.Stalled thread then
        none
      else
        (system.pending thread).map fun blocked =>
          ({ system with pending := Function.update system.pending thread none },
            some ⟨thread, system.value thread blocked,
              (system.server.threads.wakeup thread).time⟩)

/-- Every thread runs and no futex is in use. -/
def initial (rescheduleCost : Time) (va2pa : ThreadId → Address → Address) :
    FutexSystem where
  server :=
    { rescheduleCost := rescheduleCost
      va2pa := va2pa
      keys := []
      futexes := fun _ => []
      sleeping := []
      threads :=
        { state := fun _ => { status := .running }
          wakeup := fun _ => {} }
      cause := fun _ => none }
  pending := fun _ => none

def run (actions : List Action) (system : FutexSystem) : Option FutexSystem :=
  actions.foldlM (fun system action => (system.step action).map Prod.fst) system

end FutexSystem

end ChipletSniper.Threads
