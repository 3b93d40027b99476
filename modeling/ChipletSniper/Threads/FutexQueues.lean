import ChipletSniper.Library.FirstMatches
import ChipletSniper.Threads.Futex
import Mathlib.Data.List.Induction
import Mathlib.Order.Lattice

/-!
# Scans of the futex queues

A wake takes waiters out of one queue, and the next timeout is looked up in
all of them.
-/

namespace ChipletSniper.Threads

open Library (firstMatches withoutFirst firstMatches_eraseP
  withoutFirst_eraseP firstMatches_of_none withoutFirst_of_none
  firstMatches_eq_of_forall forall_of_withoutFirst_eq)

namespace SyscallServer

variable {server : SyscallServer}

/-! ## Bitsets -/

/-- The waiters are resumed, in order. -/
def resumeWaiters (time : Time) (waiters : List Waiter)
    (server : SyscallServer) : SyscallServer :=
  waiters.foldl (fun server waiter => server.resume waiter .wake time) server

theorem resumeWaiters_futexes (time : Time) (waiters : List Waiter)
    (server : SyscallServer) :
    (resumeWaiters time waiters server).futexes = server.futexes := by
  induction waiters generalizing server with
  | nil => rfl
  | cons waiter rest ih => exact ih _

theorem resumeWaiters_threads (time : Time) (waiters : List Waiter)
    (server : SyscallServer) :
    (resumeWaiters time waiters server).threads =
      waiters.foldl (fun threads waiter =>
        threads.resumeThread waiter.thread time true) server.threads := by
  induction waiters generalizing server with
  | nil => rfl
  | cons waiter rest ih => exact ih _

theorem resumeWaiters_setFutex (time : Time) (waiters : List Waiter)
    (server : SyscallServer) (address : Address) (waiting : List Waiter) :
    resumeWaiters time waiters (server.setFutex address waiting) =
      (resumeWaiters time waiters server).setFutex address waiting := by
  induction waiters generalizing server with
  | nil => rfl
  | cons waiter rest ih =>
      exact ih (server.resume waiter .wake time)

theorem setFutex_setFutex (server : SyscallServer) (address : Address)
    (first second : List Waiter) :
    (server.setFutex address first).setFutex address second =
      server.setFutex address second := by
  simp [setFutex]

theorem futexes_setFutex (server : SyscallServer) (address : Address)
    (waiting : List Waiter) :
    (server.setFutex address waiting).futexes address = waiting :=
  Function.update_self _ _ _

theorem setFutex_self (server : SyscallServer) (address : Address) :
    server.setFutex address (server.futexes address) = server := by
  simp [setFutex]

/-- A wake that finds a waiter. -/
theorem dequeueWaiter_some {address : Address} {mask : Word} {time : Time}
    {waiter : Waiter}
    (found : (server.futexes address).find? (Waiter.matching mask) =
      some waiter) :
    server.dequeueWaiter address mask time =
      ((server.resume waiter .wake time).setFutex address
        ((server.futexes address).eraseP (Waiter.matching mask)),
      some waiter.thread) := by
  simp only [dequeueWaiter, found]
  rfl

/-- The loop over `wakeFutexOne` as a whole. -/
theorem wakeLoop_eq (address : Address) (mask : Word) (time : Time)
    (count woken : Nat) (server : SyscallServer) :
    wakeLoop address mask time count server woken =
      ((resumeWaiters time
          (firstMatches (Waiter.matching mask) count (server.futexes address))
          server).setFutex address
        (withoutFirst (Waiter.matching mask) count (server.futexes address)),
      woken + (firstMatches (Waiter.matching mask) count
        (server.futexes address)).length) := by
  induction count generalizing server woken with
  | zero =>
      have none : resumeWaiters time [] server = server := rfl
      simp [wakeLoop, firstMatches, none, setFutex_self]
  | succ count ih =>
      cases found : (server.futexes address).find? (Waiter.matching mask) with
      | none =>
          have none : resumeWaiters time [] server = server := rfl
          simp [wakeLoop, dequeueWaiter, found, firstMatches_of_none found,
            withoutFirst_of_none found, none, setFutex_self]
      | some waiter =>
          have queue : ((server.resume waiter .wake time).setFutex address
              ((server.futexes address).eraseP
                (Waiter.matching mask))).futexes address =
              (server.futexes address).eraseP (Waiter.matching mask) := by
            simp [setFutex]
          simp only [wakeLoop, dequeueWaiter_some found, ih,
            queue, resumeWaiters_setFutex, setFutex_setFutex]
          rw [firstMatches_eraseP found, withoutFirst_eraseP, List.length_cons]
          exact Prod.ext rfl (by simp only; omega)

/-- The bitset of a wake call. -/
def bitset (args : FutexArgs) : Word :=
  if args.cmd = .wakeBitset then args.val3 else bitsetMatchAny

/-- The address of the futex that a call is about. -/
def address (server : SyscallServer) (thread : ThreadId) (args : FutexArgs) :
    Address :=
  server.va2pa thread args.uaddr

/-- The waiters that a wake with a mask is to resume. -/
def selected (server : SyscallServer) (thread : ThreadId) (args : FutexArgs)
    (mask : Word) : List Waiter :=
  firstMatches (Waiter.matching mask) (rounds args.val)
    (server.futexes (server.address thread args))

/-- The waiters that it is to leave. -/
def kept (server : SyscallServer) (thread : ThreadId) (args : FutexArgs)
    (mask : Word) : List Waiter :=
  withoutFirst (Waiter.matching mask) (rounds args.val)
    (server.futexes (server.address thread args))

/-- A wake resumes the first `val` waiters whose masks meet the bitset, in
order, and leaves the others alone. -/
structure WakesMatching (server : SyscallServer) (thread : ThreadId)
    (args : FutexArgs) (machine : Machine) (currTime : Time)
    (after : SyscallServer) (value : Int) : Prop where
  value : value = (server.selected thread args (bitset args)).length
  threads : after.threads =
    (server.selected thread args (bitset args)).foldl
      (fun threads waiter => threads.resumeThread waiter.thread
        (currTime + server.applyRescheduleCost machine true) true)
      server.threads
  queue : after.futexes (server.address thread args) =
    server.kept thread args (bitset args)
  others : ∀ other ≠ server.address thread args,
    after.futexes other = server.futexes other

/-- A call returns at once, and was such a wake. -/
def WakesBitset (server : SyscallServer) (thread : ThreadId)
    (args : FutexArgs) (machine : Machine) (currTime : Time) : Prop :=
  ∃ after value ended,
    server.handleFutexCall thread args machine currTime =
      some (after, some (value, ended)) ∧
    server.WakesMatching thread args machine currTime after value

/-- Both wake commands wake any mask. -/
theorem handleFutexCall_wake (server : SyscallServer) (thread : ThreadId)
    {args : FutexArgs} (machine : Machine) (currTime : Time)
    (wake : args.cmd = .wake ∨ args.cmd = .wakeBitset) :
    ∃ ended,
      server.handleFutexCall thread args machine currTime =
        some ((resumeWaiters
            (currTime + server.applyRescheduleCost machine true)
            (server.selected thread args bitsetMatchAny)
            (server.findFutexByUaddr args.uaddr thread).1).setFutex
          (server.address thread args)
          (server.kept thread args bitsetMatchAny),
        some (((server.selected thread args bitsetMatchAny).length : Int),
          ended)) := by
  have handled : server.handleFutexCall thread args machine currTime =
      some (server.futexWake thread args.uaddr args.val bitsetMatchAny
        currTime machine) := by
    rcases wake with plain | masked
    · rw [handleFutexCall, plain]
    · rw [handleFutexCall, masked]
  rw [handled]
  simp only [futexWake, wakeLoop_eq, wokenUp, Nat.zero_add]
  exact ⟨_, rfl⟩

/-- A wake of any mask does what a wake with the bitset is to do. -/
theorem wakesBitset_of_same {thread : ThreadId} {args : FutexArgs}
    (machine : Machine) (currTime : Time)
    (wake : args.cmd = .wake ∨ args.cmd = .wakeBitset)
    (selects : server.selected thread args bitsetMatchAny =
      server.selected thread args (bitset args))
    (keeps : server.kept thread args bitsetMatchAny =
      server.kept thread args (bitset args)) :
    server.WakesBitset thread args machine currTime := by
  obtain ⟨ended, handled⟩ :=
    server.handleFutexCall_wake thread machine currTime wake
  refine ⟨_, _, ended, handled,
    { value := ?_, threads := ?_, queue := ?_, others := ?_ }⟩
  · rw [selects]
  · rw [selects]
    exact resumeWaiters_threads _ _ _
  · rw [futexes_setFutex, keeps]
  · intro other different
    refine (Function.update_of_ne different _ _).trans ?_
    rw [resumeWaiters_futexes]
    rfl

theorem matching_weaker {mask : Word} (waiter : Waiter)
    (matches' : waiter.matching mask = true) :
    waiter.matching bitsetMatchAny = true := by
  have all : bitsetMatchAny = BitVec.allOnes 32 := rfl
  have meets : mask &&& waiter.mask ≠ 0 := of_decide_eq_true matches'
  rw [Waiter.matching, all, BitVec.allOnes_and]
  refine decide_eq_true fun zero => meets ?_
  rw [zero]
  exact BitVec.and_zero

/-- A wake resumes only waiters that match its bitset exactly if it is a plain
`FUTEX_WAKE`, or the bitset meets the masks of the first `val` waiters that
have any mask. -/
theorem wakesBitset_iff (server : SyscallServer) (thread : ThreadId)
    (args : FutexArgs) (machine : Machine) (currTime : Time)
    (wake : args.cmd = .wake ∨ args.cmd = .wakeBitset) :
    server.WakesBitset thread args machine currTime ↔
      args.cmd = .wake ∨
        ∀ waiter ∈ server.selected thread args bitsetMatchAny,
          waiter.matching args.val3 = true := by
  constructor
  · rintro ⟨after, value, ended, returned, wakes⟩
    rcases wake with plain | masked
    · exact .inl plain
    · obtain ⟨time, handled⟩ :=
        server.handleFutexCall_wake thread machine currTime (.inr masked)
      rw [handled] at returned
      cases returned
      have keeps : server.kept thread args bitsetMatchAny =
          server.kept thread args (bitset args) := by
        refine Eq.trans ?_ wakes.queue
        rw [futexes_setFutex]
      have own : bitset args = args.val3 := if_pos masked
      rw [own] at keeps
      exact .inr (forall_of_withoutFirst_eq keeps)
  · intro holds
    by_cases plain : args.cmd = .wake
    · have own : bitset args = bitsetMatchAny := by
        simp [bitset, plain]
      exact wakesBitset_of_same machine currTime wake (by rw [own])
        (by rw [own])
    · have own : bitset args = args.val3 := by
        simp [bitset, wake.resolve_left plain]
      obtain ⟨selects, keeps⟩ :=
        firstMatches_eq_of_forall matching_weaker (holds.resolve_left plain)
      refine wakesBitset_of_same machine currTime wake ?_ ?_
      · rw [own]
        exact selects
      · rw [own]
        exact keeps

/-- A wake with the bitset 2 resumes the waiter with that mask. -/
theorem wakesBitset_second :
    ({ (FutexSystem.initial 0 fun _ address => address).server with
      futexes := fun _ => [⟨1, 2, maxTime⟩] } : SyscallServer).WakesBitset 2
        { uaddr := 0, cmd := .wakeBitset, val := 1, val3 := 2 } {} 10 :=
  (wakesBitset_iff _ 2 _ {} 10 (.inr rfl)).mpr (.inr (by decide))

/-- Thread 0 waits with the mask 1 and thread 1 with the mask 2. -/
def waitTwice : List FutexSystem.Action :=
  [.futex 0 { uaddr := 0, cmd := .waitBitset, val3 := 1 } {} 10,
    .futex 1 { uaddr := 0, cmd := .waitBitset, val3 := 2 } {} 20]

/-- A wake of one waiter with the mask 2 resumes the one with the mask 1. -/
theorem wakes_other_mask :
    ∃ system,
      FutexSystem.run waitTwice
        (FutexSystem.initial 0 fun _ address => address) = some system ∧
      ¬ system.server.WakesBitset 2
        { uaddr := 0, cmd := .wakeBitset, val := 1, val3 := 2 } {} 30 := by
  have reached : (FutexSystem.run waitTwice
      (FutexSystem.initial 0 fun _ address => address)).map (fun system =>
        (system.server.futexes
          (system.server.address 2
            { uaddr := 0, cmd := .wakeBitset, val := 1, val3 := 2 }),
        (system.server.handleFutexCall 2
          { uaddr := 0, cmd := .wakeBitset, val := 1, val3 := 2 } {} 30).map
            fun result => result.1.futexes
              (system.server.address 2
                { uaddr := 0, cmd := .wakeBitset, val := 1, val3 := 2 }))) =
      some ([⟨0, 1, maxTime⟩, ⟨1, 2, maxTime⟩],
        some [⟨1, 2, maxTime⟩]) := by
    decide
  obtain ⟨system, ran, seen⟩ := Option.map_eq_some_iff.mp reached
  obtain ⟨before, left⟩ := Prod.mk.inj seen
  refine ⟨system, ran, ?_⟩
  rintro ⟨after, value, ended, returned, wakes⟩
  rw [returned, Option.map_some, Option.some.injEq, wakes.queue, kept,
    before] at left
  revert left
  decide

end SyscallServer

/-! ## The next timeout -/

/-- The wait ends by itself. -/
def Waiter.timed (waiter : Waiter) : Bool :=
  waiter.timeout < maxTime

/-- The loop over one queue, in `SimFutex::getNextTimeout` and over
`m_sleeping`. -/
def nextTimeoutLoop (queue : List Waiter) : Time :=
  queue.foldl (fun next waiter =>
    if waiter.timeout < maxTime then waiter.timeout else next) maxTime

namespace SyscallServer

/-- `getNextTimeout`. The map is visited in the order `visited`. -/
def getNextTimeout (server : SyscallServer) (visited : List Address) : Time :=
  visited.foldl (fun next address =>
    if nextTimeoutLoop (server.futexes address) < next then
      nextTimeoutLoop (server.futexes address)
    else
      next) (nextTimeoutLoop server.sleeping)

/-- The queues that hold threads. -/
def queues (server : SyscallServer) : List (List Waiter) :=
  server.sleeping :: server.keys.map server.futexes

/-- All pending timeouts that are finite. -/
def pendingTimeouts (server : SyscallServer) : List Time :=
  ((server.queues.flatten).filter Waiter.timed).map (·.timeout)

/-- The minimum of the pending timeouts, `MaxTime` if there is none. -/
def earliestTimeout (server : SyscallServer) : Time :=
  server.pendingTimeouts.foldr min maxTime

/-- Every pending timeout is at or after the last timed waiter of some
queue. -/
def LastIsEarliest (server : SyscallServer) : Prop :=
  ∀ time ∈ server.pendingTimeouts, ∃ queue ∈ server.queues,
    ∃ last ∈ (queue.filter Waiter.timed).getLast?, last.timeout ≤ time

instance (server : SyscallServer) : Decidable server.LastIsEarliest :=
  inferInstanceAs (Decidable (∀ time ∈ server.pendingTimeouts,
    ∃ queue ∈ server.queues,
      ∃ last ∈ (queue.filter Waiter.timed).getLast?, _ ≤ time))

end SyscallServer

/-- The loop finds the last timed waiter. -/
theorem nextTimeoutLoop_eq (queue : List Waiter) :
    nextTimeoutLoop queue =
      ((queue.filter Waiter.timed).getLast?.map (·.timeout)).getD maxTime := by
  induction queue using List.reverseRecOn with
  | nil => rfl
  | append_singleton queue waiter ih =>
      rw [nextTimeoutLoop, List.foldl_append, ← nextTimeoutLoop,
        List.filter_append]
      by_cases timed : waiter.timeout < maxTime
      · have keeps : [waiter].filter Waiter.timed = [waiter] := by
          simp [Waiter.timed, timed]
        rw [keeps, List.getLast?_concat]
        exact if_pos timed
      · have drops : [waiter].filter Waiter.timed = [] := by
          simp [Waiter.timed, timed]
        rw [drops, List.append_nil, ← ih]
        exact if_neg timed

/-- Below the maximum it is one of the timeouts of the queue. -/
theorem exists_of_nextTimeoutLoop_le {queue : List Waiter} {time : Time}
    (finite : time < maxTime) :
    nextTimeoutLoop queue ≤ time ↔
      ∃ last ∈ (queue.filter Waiter.timed).getLast?, last.timeout ≤ time := by
  rw [nextTimeoutLoop_eq]
  cases (queue.filter Waiter.timed).getLast? with
  | none =>
      refine iff_of_false ?_ ?_
      · exact Nat.not_le.mpr finite
      · rintro ⟨last, member, _⟩
        cases member
  | some last => simp

namespace SyscallServer

variable {server : SyscallServer}

/-- The loops find the least of what they find in every queue. -/
theorem getNextTimeout_le_iff (visited : List Address) (time : Time) :
    server.getNextTimeout visited ≤ time ↔
      ∃ queue ∈ server.sleeping :: visited.map server.futexes,
        nextTimeoutLoop queue ≤ time := by
  have loop : ∀ first : Time,
      visited.foldl (fun next address =>
        if nextTimeoutLoop (server.futexes address) < next then
          nextTimeoutLoop (server.futexes address)
        else
          next) first ≤ time ↔
      first ≤ time ∨ ∃ address ∈ visited,
        nextTimeoutLoop (server.futexes address) ≤ time := by
    induction visited with
    | nil => simp
    | cons address rest ih =>
        intro first
        rw [List.foldl_cons, ih, List.exists_mem_cons_iff,
          ← or_assoc]
        refine or_congr_left ?_
        split
        next earlier =>
          exact ⟨.inr, fun either => either.elim earlier.le.trans id⟩
        next later =>
          exact ⟨.inl, fun either => either.elim id (not_lt.mp later).trans⟩
  rw [getNextTimeout, loop, List.exists_mem_cons_iff]
  simp

theorem mem_pendingTimeouts {time : Time} :
    time ∈ server.pendingTimeouts ↔
      ∃ queue ∈ server.queues, ∃ waiter ∈ queue,
        waiter.timeout < maxTime ∧ waiter.timeout = time := by
  simp only [pendingTimeouts, List.mem_map, List.mem_filter, List.mem_flatten,
    Waiter.timed, decide_eq_true_eq]
  constructor
  · rintro ⟨waiter, ⟨⟨queue, among, member⟩, finite⟩, same⟩
    exact ⟨queue, among, waiter, member, finite, same⟩
  · rintro ⟨queue, among, waiter, member, finite, same⟩
    exact ⟨waiter, ⟨⟨queue, among, member⟩, finite⟩, same⟩

theorem earliestTimeout_le {time : Time}
    (pending : time ∈ server.pendingTimeouts) :
    server.earliestTimeout ≤ time := by
  unfold earliestTimeout
  generalize server.pendingTimeouts = times at pending ⊢
  induction times with
  | nil => cases pending
  | cons head rest ih =>
      rw [List.foldr_cons]
      rcases List.mem_cons.mp pending with rfl | later
      · exact min_le_left _ _
      · exact (min_le_right _ _).trans (ih later)

/-- The minimum is pending, unless nothing is. -/
theorem earliestTimeout_eq (server : SyscallServer) :
    server.earliestTimeout ∈ server.pendingTimeouts ∨
      server.earliestTimeout = maxTime := by
  unfold earliestTimeout
  induction server.pendingTimeouts with
  | nil => exact .inr rfl
  | cons head rest ih =>
      rw [List.foldr_cons]
      rcases le_total head (rest.foldr min maxTime) with least | least
      · rw [min_eq_left least]
        exact .inl List.mem_cons_self
      · rw [min_eq_right least]
        exact ih.imp_left (List.mem_cons_of_mem head)

/-- What the loops find is never too early. -/
theorem earliestTimeout_le_getNextTimeout {visited : List Address}
    (perm : visited.Perm server.keys) :
    server.earliestTimeout ≤ server.getNextTimeout visited := by
  obtain ⟨queue, among, found⟩ :=
    (getNextTimeout_le_iff visited _).mp
      (le_refl (server.getNextTimeout visited))
  refine le_trans ?_ found
  rw [nextTimeoutLoop_eq]
  cases last : (queue.filter Waiter.timed).getLast? with
  | none =>
      rcases server.earliestTimeout_eq with pending | least
      · obtain ⟨_, _, waiter, _, finite, same⟩ := mem_pendingTimeouts.mp pending
        exact same ▸ finite.le
      · exact least.le
  | some waiter =>
      obtain ⟨member, timed⟩ :=
        List.mem_filter.mp (List.mem_of_getLast? last)
      refine earliestTimeout_le (mem_pendingTimeouts.mpr ⟨queue, ?_, waiter,
        member, of_decide_eq_true timed, rfl⟩)
      rcases List.mem_cons.mp among with rfl | mapped
      · exact List.mem_cons_self
      · exact List.mem_cons_of_mem _ ((perm.map server.futexes).subset mapped)

/-- The next timeout is the earliest one exactly if the earliest one is the
last timed waiter of its queue. -/
theorem getNextTimeout_eq_earliest_iff (server : SyscallServer)
    (visited : List Address) (perm : visited.Perm server.keys) :
    server.getNextTimeout visited = server.earliestTimeout ↔
      server.LastIsEarliest := by
  have queues : ∀ queue, queue ∈ server.sleeping ::
      visited.map server.futexes ↔ queue ∈ server.queues := by
    intro queue
    rw [SyscallServer.queues, List.mem_cons, List.mem_cons,
      (perm.map server.futexes).mem_iff]
  constructor
  · intro same time pending
    have finite : time < maxTime := by
      obtain ⟨_, _, waiter, _, finite, rfl⟩ := mem_pendingTimeouts.mp pending
      exact finite
    have early : server.getNextTimeout visited ≤ time :=
      same.trans_le (earliestTimeout_le pending)
    obtain ⟨queue, among, found⟩ := (getNextTimeout_le_iff visited time).mp early
    exact ⟨queue, (queues queue).mp among,
      (exists_of_nextTimeoutLoop_le finite).mp found⟩
  · intro lasts
    refine le_antisymm ?_ (earliestTimeout_le_getNextTimeout perm)
    rcases server.earliestTimeout_eq with pending | least
    · have finite : server.earliestTimeout < maxTime := by
        obtain ⟨_, _, waiter, _, finite, same⟩ :=
          mem_pendingTimeouts.mp pending
        exact same ▸ finite
      obtain ⟨queue, among, found⟩ := lasts _ pending
      exact (getNextTimeout_le_iff visited _).mpr ⟨queue,
        (queues queue).mpr among,
        (exists_of_nextTimeoutLoop_le finite).mpr found⟩
    · rw [least]
      refine (getNextTimeout_le_iff visited _).mpr
        ⟨server.sleeping, List.mem_cons_self, ?_⟩
      rw [nextTimeoutLoop_eq]
      cases last : (server.sleeping.filter Waiter.timed).getLast? with
      | none => exact le_rfl
      | some waiter =>
          have timed := (List.mem_filter.mp (List.mem_of_getLast? last)).2
          exact (of_decide_eq_true timed : waiter.timeout < maxTime).le

/-- One sleeping thread and one timed wait. -/
theorem getNextTimeout_sleeper :
    let server : SyscallServer :=
      { (FutexSystem.initial 0 fun _ address => address).server with
        keys := [7]
        futexes := Function.update (fun _ => []) 7 [⟨1, 1, 50⟩]
        sleeping := [⟨0, 0, 90⟩] }
    server.getNextTimeout [7] = server.earliestTimeout :=
  (getNextTimeout_eq_earliest_iff _ [7] (List.Perm.refl _)).mpr (by decide)

/-- Thread 0 sleeps until 50 and thread 1 until 90. -/
theorem getNextTimeout_skips_earlier :
    ∃ system,
      FutexSystem.run [.sleep 0 50, .sleep 1 90]
        (FutexSystem.initial 0 fun _ address => address) = some system ∧
      system.server.getNextTimeout system.server.keys ≠
        system.server.earliestTimeout := by
  have reached : (FutexSystem.run [.sleep 0 50, .sleep 1 90]
      (FutexSystem.initial 0 fun _ address => address)).map (fun system =>
        (system.server.getNextTimeout system.server.keys,
          system.server.earliestTimeout)) = some (90, 50) := by
    decide
  obtain ⟨system, ran, seen⟩ := Option.map_eq_some_iff.mp reached
  obtain ⟨next, earliest⟩ := Prod.mk.inj seen
  refine ⟨system, ran, ?_⟩
  rw [next, earliest]
  decide

end SyscallServer

end ChipletSniper.Threads
