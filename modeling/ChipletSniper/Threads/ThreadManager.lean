import Mathlib.Logic.Function.Basic

/-!
# Threads that stall and resume

The part of the thread manager that the simulated synchronisation objects
call: the state of every thread and the message with which it was woken.
-/

namespace ChipletSniper.Threads

/-- `thread_id_t`; `INVALID_THREAD_ID` is `none`. -/
abbrev ThreadId := Nat

/-- A `SubsecondTime`. -/
abbrev Time := Nat

/-- `Core::State`. -/
inductive CoreState where
  | running
  | initializing
  | stalled
  | sleeping
  | wakingUp
  | idle
  | broken
  deriving DecidableEq, Repr

/-- `ThreadManager::stall_type_t`. -/
inductive StallType where
  | unscheduled
  | broken
  | join
  | mutex
  | cond
  | barrier
  | futex
  | pause
  | sleep
  | syscall
  deriving DecidableEq, Repr

/-- `ThreadManager::ThreadState`. The reason is not initialised by the
constructor and only read while the thread is stalled. -/
structure ThreadState where
  status : CoreState := .idle
  stalledReason : StallType := .unscheduled
  waiter : Option ThreadId := none

/-- What `Thread::signal` leaves for the thread. The pointer `m_wakeup_msg` is
only ever null or one of the two truth values. -/
structure Wakeup where
  time : Time := 0
  msg : Bool := false

structure ThreadManager where
  state : ThreadId → ThreadState
  wakeup : ThreadId → Wakeup

namespace ThreadManager

variable (threads : ThreadManager)

def setState (thread : ThreadId) (state : ThreadState) : ThreadManager :=
  { threads with state := Function.update threads.state thread state }

def Stalled (thread : ThreadId) : Prop :=
  (threads.state thread).status = .stalled

/-- `Thread::signal`. -/
def signal (thread : ThreadId) (time : Time) (msg : Bool) : ThreadManager :=
  { threads with
    wakeup := Function.update threads.wakeup thread ⟨time, msg⟩ }

def stallThreadAsync (thread : ThreadId) (reason : StallType) :
    ThreadManager :=
  threads.setState thread
    { threads.state thread with status := .stalled, stalledReason := reason }

/-- `stallThread` up to the point where the thread blocks in `Thread::wait`,
which first forgets the last message. A thread that is resumed before it
blocks does not clear it, but then the message is the one of that resume. -/
def stallThread (thread : ThreadId) (reason : StallType) : ThreadManager :=
  let stalled := threads.stallThreadAsync thread reason
  { stalled with
    wakeup := Function.update stalled.wakeup thread
      { stalled.wakeup thread with msg := false } }

def resumeThreadAsync (thread : ThreadId) : ThreadManager :=
  threads.setState thread { threads.state thread with status := .running }

def resumeThread (thread : ThreadId) (time : Time) (msg : Bool) :
    ThreadManager :=
  (threads.signal thread time msg).resumeThreadAsync thread

instance (thread : ThreadId) : Decidable (threads.Stalled thread) :=
  inferInstanceAs (Decidable (_ = _))

@[simp] theorem stalled_stallThread (thread other : ThreadId)
    (reason : StallType) :
    (threads.stallThread thread reason).Stalled other ↔
      other = thread ∨ threads.Stalled other := by
  by_cases same : other = thread
  · simp [Stalled, stallThread, stallThreadAsync, setState, same]
  · simp [Stalled, stallThread, stallThreadAsync, setState, same]

@[simp] theorem stalled_resumeThread (thread other : ThreadId) (time : Time)
    (msg : Bool) :
    (threads.resumeThread thread time msg).Stalled other ↔
      other ≠ thread ∧ threads.Stalled other := by
  by_cases same : other = thread
  · simp [Stalled, resumeThread, resumeThreadAsync, signal, setState, same]
  · simp [Stalled, resumeThread, resumeThreadAsync, signal, setState, same]

/-- All the threads of a list are resumed, in order. -/
def resumeAll (waiters : List ThreadId) (time : Time) : ThreadManager :=
  waiters.foldl (fun threads waiter => threads.resumeThread waiter time false)
    threads

theorem stalled_resumeAll (waiters : List ThreadId) (other : ThreadId)
    (time : Time) :
    (threads.resumeAll waiters time).Stalled other ↔
      other ∉ waiters ∧ threads.Stalled other := by
  induction waiters generalizing threads with
  | nil => simp [resumeAll]
  | cons waiter rest ih =>
      have step := ih (threads.resumeThread waiter time false)
      rw [stalled_resumeThread] at step
      rw [List.mem_cons, not_or, and_comm (a := other ≠ waiter), and_assoc]
      exact step

end ThreadManager

end ChipletSniper.Threads
