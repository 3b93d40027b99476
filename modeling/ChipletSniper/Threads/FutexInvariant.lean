import ChipletSniper.Library.Runs
import ChipletSniper.Library.Waiting
import ChipletSniper.Threads.Futex

/-!
# The invariant of the futex server

Every stalled thread waits in exactly one queue, and a thread that has left
its futex was told why.
-/

namespace ChipletSniper.Threads

open Function

open Library (Parked)

/-- The queues of the server. -/
inductive FutexPlace where
  | futex (address : Address)
  | sleeping
  deriving DecidableEq, Repr

namespace SyscallServer

def queue (server : SyscallServer) : FutexPlace → List ThreadId
  | .futex address => (server.futexes address).map (·.thread)
  | .sleeping => server.sleeping.map (·.thread)

structure Inv (pending : ThreadId → Option Blocked)
    (server : SyscallServer) : Prop where
  parked : Parked server.queue server.threads.Stalled
  masks : ∀ {address waiter}, waiter ∈ server.futexes address →
    waiter.mask ≠ 0
  known : ∀ {address}, server.futexes address ≠ [] → address ∈ server.keys
  distinct : server.keys.Nodup
  waiting : ∀ {address waiter}, waiter ∈ server.futexes address →
    pending waiter.thread = some .futexWait
  asleep : ∀ {waiter}, waiter ∈ server.sleeping →
    pending waiter.thread = some .sleep
  told : ∀ {thread}, pending thread = some .futexWait →
    ¬ server.threads.Stalled thread →
      ∃ cause, server.cause thread = some cause ∧
        (server.threads.wakeup thread).msg = (cause == .wake)
  mapped : ∀ thread, Function.Injective (server.va2pa thread)

variable {pending : ThreadId → Option Blocked} {server : SyscallServer}

theorem queue_setFutex (server : SyscallServer) (address : Address)
    (waiting : List Waiter) :
    (server.setFutex address waiting).queue =
      update server.queue (.futex address)
        (waiting.map (·.thread)) := by
  funext place
  cases place with
  | futex other =>
      by_cases same : other = address
      · subst same
        simp [queue, setFutex]
      · simp [queue, setFutex, same]
  | sleeping => rfl

theorem queue_setSleeping (server : SyscallServer) (sleeping : List Waiter) :
    { server with sleeping := sleeping }.queue =
      update server.queue .sleeping (sleeping.map (·.thread)) := by
  funext place
  cases place with
  | futex => simp [queue]
  | sleeping => simp [queue]

/-- The first matching element and the list without it. -/
theorem split_of_find? {Item : Type*} {keep : Item → Bool}
    {items : List Item} {item : Item} (found : items.find? keep = some item) :
    keep item = true ∧ ∃ before after, items = before ++ item :: after ∧
      items.eraseP keep = before ++ after ∧
      ∀ other ∈ before, keep other = false := by
  obtain ⟨kept, before, after, rfl, passed⟩ :=
    List.find?_eq_some_iff_append.mp found
  refine ⟨kept, before, after, rfl, ?_, by simpa using passed⟩
  rw [List.eraseP_append_right _ (by simpa using passed),
    List.eraseP_cons_of_pos kept]

theorem Inv.findFutexByUaddr (inv : Inv pending server) (uaddr : Address)
    (thread : ThreadId) :
    Inv pending (server.findFutexByUaddr uaddr thread).1 ∧
      (server.findFutexByUaddr uaddr thread).2 ∈
        (server.findFutexByUaddr uaddr thread).1.keys := by
  constructor
  · refine { inv with known := ?_, distinct := ?_ }
    · intro address nonempty
      have before := inv.known nonempty
      simp only [SyscallServer.findFutexByUaddr]
      split
      · exact before
      · exact List.mem_append_left _ before
    · simp only [SyscallServer.findFutexByUaddr]
      split
      next => exact inv.distinct
      next absent =>
        exact List.nodup_append_comm.mpr (inv.distinct.cons absent)
  · simp only [SyscallServer.findFutexByUaddr]
    split
    next present => exact present
    · simp

theorem mem_of_mem_setFutex {address other : Address} {waiter kept : Waiter}
    {before after : List Waiter}
    (split : server.futexes address = before ++ waiter :: after)
    (member : kept ∈ (server.setFutex address (before ++ after)).futexes other) :
    kept ∈ server.futexes other := by
  by_cases same : other = address
  · subst same
    simp only [setFutex, update_self] at member
    rw [split]
    simp only [List.mem_append, List.mem_cons] at member ⊢
    exact member.imp_right .inr
  · simpa [setFutex, same] using member

/-- A waiter leaves its futex and is told why. -/
theorem Inv.takeOut (inv : Inv pending server) {address : Address}
    {waiter : Waiter} {before after : List Waiter}
    (split : server.futexes address = before ++ waiter :: after)
    (cause : Cause) (time : Time) :
    Inv pending
      ((server.setFutex address (before ++ after)).resume waiter cause
        time) where
  parked := by
    have place : server.queue (.futex address) = before.map (·.thread) ++
        waiter.thread :: after.map (·.thread) := by
      simp [queue, split]
    refine (inv.parked.remove place).of_eq ?_ ?_
    · refine congrFun ((queue_setFutex server address _).trans ?_)
      simp
    · exact fun other => ThreadManager.stalled_resumeThread ..
  masks := fun member => inv.masks (mem_of_mem_setFutex split member)
  known := by
    intro other nonempty
    by_cases same : other = address
    · subst same
      exact inv.known (by simp [split])
    · refine inv.known ?_
      simpa [resume, setFutex, same] using nonempty
  waiting := fun member => inv.waiting (mem_of_mem_setFutex split member)
  asleep := inv.asleep
  mapped := inv.mapped
  distinct := inv.distinct
  told := by
    intro thread waits awake
    simp only [resume] at awake ⊢
    rw [ThreadManager.stalled_resumeThread] at awake
    by_cases same : thread = waiter.thread
    · subst same
      exact ⟨cause, update_self .., by
        simp [ThreadManager.resumeThread, ThreadManager.resumeThreadAsync,
          ThreadManager.signal, ThreadManager.setState]⟩
    · obtain ⟨reason, caused, message⟩ := inv.told waits fun stalled =>
        awake ⟨same, stalled⟩
      refine ⟨reason, ?_, ?_⟩
      · rwa [update_of_ne same]
      · simpa [ThreadManager.resumeThread, ThreadManager.resumeThreadAsync,
          ThreadManager.signal, ThreadManager.setState, setFutex, same]
          using message

theorem update_kept_blocked {thread : ThreadId}
    (outside : pending thread = none) (blocked : Blocked) {other : ThreadId}
    {pended : Blocked} (called : pending other = some pended) :
    update pending thread (some blocked) other = some pended := by
  have different : other ≠ thread := by
    rintro rfl
    rw [outside] at called
    cases called
  rwa [update_of_ne different]

/-- What the threads that are awake were told, when one more thread stalls. -/
theorem Inv.told_stalled (inv : Inv pending server) {thread other : ThreadId}
    {blocked : Blocked} {reason : StallType}
    (waits : update pending thread (some blocked) other =
      some .futexWait)
    (awake : ¬ (server.threads.stallThread thread reason).Stalled other) :
    other ≠ thread ∧ ∃ cause, server.cause other = some cause ∧
      ((server.threads.stallThread thread reason).wakeup other).msg =
        (cause == .wake) := by
  rw [ThreadManager.stalled_stallThread, not_or] at awake
  obtain ⟨different, awake⟩ := awake
  rw [update_of_ne different] at waits
  obtain ⟨cause, caused, message⟩ := inv.told waits awake
  refine ⟨different, cause, caused, ?_⟩
  simpa [ThreadManager.stallThread, ThreadManager.stallThreadAsync,
    ThreadManager.setState, different] using message

/-- A thread outside the server joins the queue of a futex. -/
theorem Inv.enqueueWaiter (inv : Inv pending server) {address : Address}
    {thread : ThreadId} {mask : Word} (known : address ∈ server.keys)
    (outside : pending thread = none)
    (awake : ¬ server.threads.Stalled thread) (matchable : mask ≠ 0)
    (timeout : Time) :
    Inv (update pending thread (some .futexWait))
      (server.enqueueWaiter address thread mask timeout) where
  parked := by
    refine (inv.parked.push awake (.futex address)).of_eq ?_ ?_
    · refine congrFun ((queue_setFutex server address _).trans ?_)
      simp [queue]
    · exact fun other => ThreadManager.stalled_stallThread ..
  masks := by
    intro other waiter member
    by_cases same : other = address
    · subst same
      simp only [SyscallServer.enqueueWaiter, setFutex, update_self,
        List.mem_append, List.mem_singleton] at member
      rcases member with before | rfl
      · exact inv.masks before
      · exact matchable
    · have before : waiter ∈ server.futexes other := by
        simpa [SyscallServer.enqueueWaiter, setFutex, same] using member
      exact inv.masks before
  known := by
    intro other nonempty
    by_cases same : other = address
    · subst same
      exact known
    · refine inv.known ?_
      simpa [SyscallServer.enqueueWaiter, setFutex, same] using nonempty
  waiting := by
    intro other waiter member
    by_cases same : other = address
    · subst same
      simp only [SyscallServer.enqueueWaiter, setFutex, update_self,
        List.mem_append, List.mem_singleton] at member
      rcases member with before | rfl
      · exact update_kept_blocked outside _ (inv.waiting before)
      · exact update_self ..
    · have before : waiter ∈ server.futexes other := by
        simpa [SyscallServer.enqueueWaiter, setFutex, same] using member
      exact update_kept_blocked outside _ (inv.waiting before)
  asleep := fun member => update_kept_blocked outside _ (inv.asleep member)
  mapped := inv.mapped
  distinct := inv.distinct
  told := by
    intro other waits still
    obtain ⟨different, cause, caused, message⟩ := inv.told_stalled waits still
    refine ⟨cause, ?_, message⟩
    simpa [SyscallServer.enqueueWaiter, setFutex, different] using caused

theorem Inv.handleSleepCall (inv : Inv pending server) {thread : ThreadId}
    (outside : pending thread = none)
    (awake : ¬ server.threads.Stalled thread) (wakeTime : Time) :
    Inv (update pending thread (some .sleep))
      (server.handleSleepCall thread wakeTime) where
  parked := by
    have queues := queue_setSleeping server
      (server.sleeping ++ [⟨thread, 0, wakeTime⟩])
    refine (inv.parked.push awake .sleeping).of_eq ?_ ?_
    · intro place
      refine (congrFun queues place).trans ?_
      simp [queue]
    · exact fun other => ThreadManager.stalled_stallThread ..
  masks := inv.masks
  known := inv.known
  waiting := fun member => update_kept_blocked outside _ (inv.waiting member)
  asleep := by
    intro waiter member
    rcases List.mem_append.mp member with before | added
    · exact update_kept_blocked outside _ (inv.asleep before)
    · obtain rfl := List.mem_singleton.mp added
      exact update_self ..
  told := fun waits still => (inv.told_stalled waits still).2
  mapped := inv.mapped
  distinct := inv.distinct

theorem Inv.wakeSleeper (inv : Inv pending server) (time : Time) :
    Inv pending (server.wakeSleeper time) := by
  cases found : server.sleeping.find? (Waiter.expired time) with
  | none =>
      simp only [SyscallServer.wakeSleeper, found]
      exact inv
  | some waiter =>
      obtain ⟨_, before, after, split, erased, _⟩ := split_of_find? found
      have slept : pending waiter.thread = some .sleep :=
        inv.asleep (by simp [split])
      simp only [SyscallServer.wakeSleeper, found, erased]
      refine { inv with parked := ?_, asleep := ?_, told := ?_ }
      · have place : server.queue .sleeping = before.map (·.thread) ++
            waiter.thread :: after.map (·.thread) := by
          simp [queue, split]
        refine (inv.parked.remove place).of_eq ?_ ?_
        · refine congrFun ((queue_setSleeping server _).trans ?_)
          simp
        · exact fun other => ThreadManager.stalled_resumeThread ..
      · intro kept member
        refine inv.asleep ?_
        rw [split]
        simp only [List.mem_append, List.mem_cons] at member ⊢
        exact member.imp_right .inr
      · intro thread waits awake
        rw [ThreadManager.stalled_resumeThread] at awake
        have different : thread ≠ waiter.thread := by
          rintro rfl
          rw [slept] at waits
          cases waits
        obtain ⟨cause, caused, message⟩ := inv.told waits fun stalled =>
          awake ⟨different, stalled⟩
        refine ⟨cause, caused, ?_⟩
        simpa [ThreadManager.resumeThread, ThreadManager.resumeThreadAsync,
          ThreadManager.signal, ThreadManager.setState, different]
          using message

theorem Inv.wakeTimedOut (inv : Inv pending server) (time : Time)
    (address : Address) :
    Inv pending (server.wakeTimedOut time address) := by
  cases found : (server.futexes address).find? (Waiter.expired time) with
  | none =>
      simp only [SyscallServer.wakeTimedOut, found]
      exact inv
  | some waiter =>
      obtain ⟨_, before, after, split, erased, _⟩ := split_of_find? found
      simp only [SyscallServer.wakeTimedOut, found, erased]
      exact inv.takeOut split .timeout time

theorem Inv.futexPeriodic (inv : Inv pending server) (time : Time)
    (visited : List Address) :
    Inv pending (server.futexPeriodic time visited) :=
  Library.foldl_induction (fun _ server => Inv pending server)
    (fun inv => inv.wakeTimedOut time _) (inv.wakeSleeper time)

/-- A waiter goes to the end of another futex and stays stalled. -/
theorem Inv.requeueWaiter (inv : Inv pending server)
    {address target : Address} (apart : target ≠ address)
    (known : target ∈ server.keys) :
    Inv pending (server.requeueWaiter address target).1 := by
  cases front : server.futexes address with
  | nil =>
      simp only [SyscallServer.requeueWaiter, front]
      exact inv
  | cons waiter rest =>
      simp only [SyscallServer.requeueWaiter, front]
      have split : server.futexes address = [] ++ waiter :: rest := front
      have member : waiter ∈ server.futexes address := by simp [front]
      have inside : ∀ {other kept},
          kept ∈ ((server.setFutex address rest).setFutex target
            ((server.setFutex address rest).futexes target ++
              [waiter])).futexes other →
            ∃ source, kept ∈ server.futexes source := by
        intro other kept present
        have popped : ∀ {spot},
            kept ∈ (server.setFutex address rest).futexes spot →
              kept ∈ server.futexes spot :=
          fun found => mem_of_mem_setFutex split found
        by_cases same : other = target
        · subst same
          simp only [setFutex, update_self] at present
          rcases List.mem_append.mp present with before | added
          · exact ⟨other, popped before⟩
          · obtain rfl := List.mem_singleton.mp added
            exact ⟨address, member⟩
        · refine ⟨other, popped ?_⟩
          simpa [setFutex, same] using present
      refine
        { inv with
          parked := ?_, masks := ?_, known := ?_, waiting := ?_, told := ?_ }
      · have place : server.queue (.futex address) =
            [] ++ waiter.thread :: rest.map (·.thread) := by
          simp [queue, front]
        have away : FutexPlace.futex target ≠ .futex address := by
          simpa using apart
        refine (inv.parked.move place away).of_eq ?_ fun _ => Iff.rfl
        intro spot
        rw [queue_setFutex, queue_setFutex]
        simp [queue, setFutex, apart]
      · intro other kept present
        obtain ⟨source, found⟩ := inside present
        exact inv.masks found
      · intro other nonempty
        by_cases same : other = target
        · subst same
          exact known
        · by_cases also : other = address
          · subst also
            exact inv.known (by simp [front])
          · refine inv.known ?_
            simpa [setFutex, same, also] using nonempty
      · intro other kept present
        obtain ⟨source, found⟩ := inside present
        exact inv.waiting found
      · exact inv.told

end SyscallServer

end ChipletSniper.Threads
