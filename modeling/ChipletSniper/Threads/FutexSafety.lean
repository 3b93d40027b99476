import ChipletSniper.Threads.FutexInvariant

/-!
# Futexes lose no waiter

What the wake and requeue loops do as a whole, and the invariant over every
run of the threads and the periodic scan.
-/

namespace ChipletSniper.Threads

open Function

namespace SyscallServer

variable {pending : ThreadId → Option Blocked} {server : SyscallServer}

/-! ## The wake loop -/

/-- The `count` longest waiters of a futex are resumed by a wake, and nothing
else happens in any futex. -/
structure Wakes (address : Address) (count : Nat)
    (before after : SyscallServer) : Prop where
  queue : after.futexes address = (before.futexes address).drop count
  others : ∀ other ≠ address, after.futexes other = before.futexes other
  resumed : ∀ thread, after.threads.Stalled thread ↔
    before.threads.Stalled thread ∧
      thread ∉ ((before.futexes address).take count).map (·.thread)
  caused : ∀ waiter ∈ (before.futexes address).take count,
    after.cause waiter.thread = some .wake

theorem matching_any {waiter : Waiter} (nonzero : waiter.mask ≠ 0) :
    waiter.matching bitsetMatchAny = true := by
  have all : bitsetMatchAny = BitVec.allOnes 32 := rfl
  rw [Waiter.matching, all, BitVec.allOnes_and]
  exact decide_eq_true nonzero

theorem dequeueWaiter_nil {address : Address} {mask : Word} {time : Time}
    (empty : server.futexes address = []) :
    server.dequeueWaiter address mask time = (server, none) := by
  simp [dequeueWaiter, empty]

/-- With masks that are not zero the front waiter matches any wake. -/
theorem Inv.dequeueWaiter_cons (inv : Inv pending server) {address : Address}
    {waiter : Waiter} {rest : List Waiter} {time : Time}
    (front : server.futexes address = waiter :: rest) :
    server.dequeueWaiter address bitsetMatchAny time =
      ((server.setFutex address rest).resume waiter .wake time,
        some waiter.thread) := by
  have member : waiter ∈ server.futexes address := by simp [front]
  have anyMatch := matching_any (inv.masks member)
  simp only [dequeueWaiter, front, List.find?_cons_of_pos anyMatch,
    List.eraseP_cons_of_pos anyMatch]

/-- What the wake loop leaves alone. -/
structure WakeFrame (before after : SyscallServer) : Prop where
  keys : after.keys = before.keys
  va2pa : after.va2pa = before.va2pa
  keeps : ∀ thread, before.cause thread = some .wake →
    after.cause thread = some .wake

theorem Wakes.zero (address : Address) (server : SyscallServer) :
    Wakes address 0 server server where
  queue := by simp
  others := fun _ _ => rfl
  resumed := by simp
  caused := by simp

/-- The front waiter is resumed, then `count` more. -/
theorem Wakes.cons {address : Address} {count : Nat} {waiter : Waiter}
    {rest : List Waiter} {time : Time} {after : SyscallServer}
    (front : server.futexes address = waiter :: rest)
    (later : Wakes address count
      ((server.setFutex address rest).resume waiter .wake time) after)
    (frame : WakeFrame
      ((server.setFutex address rest).resume waiter .wake time) after) :
    Wakes address (count + 1) server after where
  queue := by
    rw [later.queue, front]
    simp [resume, setFutex]
  others := by
    intro other different
    rw [later.others other different]
    simp [resume, setFutex, different]
  resumed := by
    intro thread
    rw [later.resumed, front]
    simp only [resume, setFutex, update_self, List.take_succ_cons,
      List.map_cons, List.mem_cons, not_or,
      ThreadManager.stalled_resumeThread]
    tauto
  caused := by
    intro kept member
    rw [front, List.take_succ_cons, List.mem_cons] at member
    rcases member with rfl | member
    · exact frame.keeps _ (update_self ..)
    · refine later.caused kept ?_
      simpa [resume, setFutex] using member

theorem Inv.wakeLoop (inv : Inv pending server) (address : Address)
    (time : Time) (count woken : Nat) :
    ∃ after, SyscallServer.wakeLoop address bitsetMatchAny time count server
        woken = (after, woken + min count (server.futexes address).length) ∧
      Wakes address count server after ∧ WakeFrame server after ∧
      Inv pending after := by
  induction count generalizing server woken with
  | zero =>
      exact ⟨server, by simp [SyscallServer.wakeLoop], .zero ..,
        ⟨rfl, rfl, fun _ => id⟩, inv⟩
  | succ count ih =>
      cases front : server.futexes address with
      | nil =>
          refine ⟨server, ?_, ?_, ⟨rfl, rfl, fun _ => id⟩, inv⟩
          · simp [SyscallServer.wakeLoop, dequeueWaiter_nil front]
          · refine ⟨?_, fun _ _ => rfl, ?_, ?_⟩ <;> simp [front]
      | cons waiter rest =>
          have split : server.futexes address = [] ++ waiter :: rest := front
          have kept := inv.takeOut split .wake time
          obtain ⟨after, looped, wakes, frame, final⟩ :=
            ih kept (woken + 1)
          refine ⟨after, ?_, .cons front wakes frame, ?_, final⟩
          · simp only [SyscallServer.wakeLoop, inv.dequeueWaiter_cons front]
            refine looped.trans ?_
            simp only [resume, setFutex, update_self, List.nil_append,
              List.length_cons]
            congr 1
            omega
          · refine ⟨frame.keys, frame.va2pa, fun thread caused => ?_⟩
            refine frame.keeps thread ?_
            by_cases same : thread = waiter.thread
            · subst same
              exact update_self ..
            · simpa [resume, setFutex, same] using caused

/-! ## The requeue loop -/

/-- All the waiters of a futex go to the end of another, as they are. -/
structure Requeues (address target : Address)
    (before after : SyscallServer) : Prop where
  emptied : after.futexes address = []
  moved : after.futexes target =
    before.futexes target ++ before.futexes address
  others : ∀ other, other ≠ address → other ≠ target →
    after.futexes other = before.futexes other
  threads : after.threads = before.threads

theorem Inv.requeueLoop (inv : Inv pending server) {address target : Address}
    (apart : target ≠ address) (known : target ∈ server.keys)
    {waiters : List Waiter} (all : server.futexes address = waiters) :
    Requeues address target server
      (SyscallServer.requeueLoop address target waiters.length server) ∧
    Inv pending
      (SyscallServer.requeueLoop address target waiters.length server) := by
  induction waiters generalizing server with
  | nil => exact ⟨⟨all, by simp [all, SyscallServer.requeueLoop],
      fun _ _ _ => rfl, rfl⟩, inv⟩
  | cons waiter rest ih =>
      have kept := inv.requeueWaiter apart known
      have step : server.requeueWaiter address target =
          ((server.setFutex address rest).setFutex target
            (server.futexes target ++ [waiter]), some waiter.thread) := by
        simp [SyscallServer.requeueWaiter, all, setFutex, apart]
      rw [step] at kept
      have shorter : ((server.setFutex address rest).setFutex target
          (server.futexes target ++ [waiter])).futexes address = rest := by
        simp [setFutex, apart.symm]
      obtain ⟨moved, final⟩ := ih kept known shorter
      simp only [List.length_cons, SyscallServer.requeueLoop, step]
      refine ⟨⟨moved.emptied, ?_, ?_, moved.threads⟩, final⟩
      · rw [moved.moved, shorter, all]
        simp [setFutex]
      · intro other notAddress notTarget
        rw [moved.others other notAddress notTarget]
        simp [setFutex, notAddress, notTarget]

/-! ## The scan of the timeouts -/

/-- The waiter that a visit at `time` resumes, if any. -/
abbrev dueAt (time : Time) (waiters : List Waiter) : Option Waiter :=
  waiters.find? (Waiter.expired time)

/-- The scan resumes the longest waiter of every futex whose timeout has
passed, and one sleeping thread. -/
structure TimesOut (time : Time) (before after : SyscallServer) : Prop where
  futexes : ∀ address, after.futexes address =
    (before.futexes address).eraseP (Waiter.expired time)
  sleeping : after.sleeping = before.sleeping.eraseP (Waiter.expired time)
  resumed : ∀ thread, after.threads.Stalled thread ↔
    before.threads.Stalled thread ∧
      (∀ waiter ∈ dueAt time before.sleeping, thread ≠ waiter.thread) ∧
        ∀ address, ∀ waiter ∈ dueAt time (before.futexes address),
          thread ≠ waiter.thread
  caused : ∀ address, ∀ waiter ∈ dueAt time (before.futexes address),
    after.cause waiter.thread = some .timeout

/-- The visits of some futexes. -/
structure Visits (time : Time) (visited : List Address)
    (before after : SyscallServer) : Prop where
  inside : ∀ address ∈ visited, after.futexes address =
    (before.futexes address).eraseP (Waiter.expired time)
  outside : ∀ address, address ∉ visited →
    after.futexes address = before.futexes address
  sleeping : after.sleeping = before.sleeping
  resumed : ∀ thread, after.threads.Stalled thread ↔
    before.threads.Stalled thread ∧
      ∀ address ∈ visited, ∀ waiter ∈ dueAt time (before.futexes address),
        thread ≠ waiter.thread
  caused : ∀ address ∈ visited,
    ∀ waiter ∈ dueAt time (before.futexes address),
      after.cause waiter.thread = some .timeout
  keeps : ∀ thread, before.cause thread = some .timeout →
    after.cause thread = some .timeout

theorem visits_wakeTimedOut (server : SyscallServer) (time : Time)
    (address : Address) :
    Visits time [address] server (server.wakeTimedOut time address) := by
  cases due : dueAt time (server.futexes address) with
  | none =>
      have unchanged : server.wakeTimedOut time address = server := by
        simp only [wakeTimedOut, due]
      rw [unchanged]
      refine ⟨?_, fun _ _ => rfl, rfl, ?_, ?_, fun _ => id⟩
      · intro other member
        obtain rfl := List.mem_singleton.mp member
        exact (List.eraseP_of_forall_not fun waiter present =>
          List.find?_eq_none.mp due waiter present).symm
      · simp [due]
      · simp [due]
  | some waiter =>
      have taken : server.wakeTimedOut time address =
          (server.setFutex address ((server.futexes address).eraseP
            (Waiter.expired time))).resume waiter .timeout time := by
        simp only [wakeTimedOut, due]
      rw [taken]
      refine ⟨?_, ?_, rfl, ?_, ?_, ?_⟩
      · intro other member
        obtain rfl := List.mem_singleton.mp member
        exact update_self ..
      · intro other absent
        exact update_of_ne (fun same => absent (List.mem_singleton.mpr same)) ..
      · intro thread
        simp only [resume, ThreadManager.stalled_resumeThread,
          List.forall_mem_singleton, due, Option.mem_def, Option.some.injEq,
          forall_eq']
        exact and_comm
      · simp [due, resume]
      · intro thread caused
        by_cases same : thread = waiter.thread
        · subst same
          exact update_self ..
        · exact (update_of_ne same ..).trans caused

/-- One futex is visited, then the others. -/
theorem Visits.cons {time : Time} {address : Address} {rest : List Address}
    {middle after : SyscallServer} (first : Visits time [address] server middle)
    (later : Visits time rest middle after) (absent : address ∉ rest) :
    Visits time (address :: rest) server after := by
  have same : ∀ other ∈ rest,
      middle.futexes other = server.futexes other := by
    intro other member
    refine first.outside other fun single => absent ?_
    rwa [← List.mem_singleton.mp single]
  have here := List.mem_singleton_self address
  refine ⟨?_, ?_, later.sleeping.trans first.sleeping, ?_, ?_,
    fun thread caused => later.keeps thread (first.keeps thread caused)⟩
  · intro other member
    rcases List.mem_cons.mp member with rfl | member
    · rw [later.outside _ absent, first.inside _ here]
    · rw [later.inside other member, same other member]
  · intro other notMember
    rw [List.mem_cons, not_or] at notMember
    rw [later.outside other notMember.2, first.outside other fun single =>
      notMember.1 (List.mem_singleton.mp single)]
  · intro thread
    rw [later.resumed, first.resumed, and_assoc, List.forall_mem_singleton,
      List.forall_mem_cons]
    refine and_congr_right fun _ => and_congr_right fun _ => ?_
    refine forall₂_congr fun other member => ?_
    rw [same other member]
  · intro other member waiter due
    rcases List.mem_cons.mp member with rfl | member
    · exact later.keeps _ (first.caused _ here waiter due)
    · rw [← same other member] at due
      exact later.caused other member waiter due

theorem visits_foldl (time : Time) {visited : List Address}
    (distinct : visited.Nodup) (server : SyscallServer) :
    Visits time visited server
      (visited.foldl (fun server address => server.wakeTimedOut time address)
        server) := by
  induction visited generalizing server with
  | nil => exact ⟨by simp, fun _ _ => rfl, rfl, by simp, by simp, fun _ => id⟩
  | cons address rest ih =>
      obtain ⟨absent, distinct⟩ := List.nodup_cons.mp distinct
      exact (visits_wakeTimedOut server time address).cons (ih distinct _)
        absent

/-- What the first loop of the scan does. -/
theorem wakeSleeper_frame (server : SyscallServer) (time : Time) :
    (server.wakeSleeper time).futexes = server.futexes ∧
      (server.wakeSleeper time).sleeping =
        server.sleeping.eraseP (Waiter.expired time) ∧
      ∀ thread, (server.wakeSleeper time).threads.Stalled thread ↔
        server.threads.Stalled thread ∧
          ∀ waiter ∈ dueAt time server.sleeping, thread ≠ waiter.thread := by
  cases due : dueAt time server.sleeping with
  | none =>
      have unchanged : server.wakeSleeper time = server := by
        simp only [wakeSleeper, due]
      rw [unchanged]
      refine ⟨rfl, ?_, by simp⟩
      exact (List.eraseP_of_forall_not fun waiter present =>
        List.find?_eq_none.mp due waiter present).symm
  | some waiter =>
      simp only [wakeSleeper, due, ThreadManager.stalled_resumeThread,
        Option.mem_def, Option.some.injEq, forall_eq']
      exact ⟨trivial, trivial, fun thread => and_comm⟩

/-- Every futex with a waiter is in the map, so the scan visits it once. -/
theorem Inv.timesOut (inv : Inv pending server) (time : Time)
    {visited : List Address} (all : visited.Perm server.keys) :
    TimesOut time server (server.futexPeriodic time visited) := by
  obtain ⟨futexes, sleeping, resumed⟩ := wakeSleeper_frame server time
  have visits := visits_foldl time (all.nodup_iff.mpr inv.distinct)
    (server.wakeSleeper time)
  have seen : ∀ {address waiter},
      waiter ∈ dueAt time (server.futexes address) → address ∈ visited := by
    intro address waiter due
    refine all.mem_iff.mpr (inv.known fun empty => ?_)
    rw [empty] at due
    cases due
  refine ⟨?_, visits.sleeping.trans sleeping, ?_, ?_⟩
  · intro address
    by_cases member : address ∈ visited
    · rw [← futexes]
      exact visits.inside address member
    · have empty : server.futexes address = [] := by
        by_contra nonempty
        exact member (all.mem_iff.mpr (inv.known nonempty))
      rw [empty]
      exact (visits.outside address member).trans
        ((congrFun futexes address).trans empty)
  · intro thread
    refine (visits.resumed thread).trans ?_
    rw [resumed, futexes, and_assoc]
    refine and_congr_right fun _ => and_congr_right fun _ => ?_
    exact ⟨fun away address waiter due => away address (seen due) waiter due,
      fun away address _ => away address⟩
  · intro address waiter due
    refine visits.caused address (seen due) waiter ?_
    rw [futexes]
    exact due

/-! ## Calls -/

theorem Wakes.of_found {address : Address} {count : Nat} {keys : List Address}
    {after : SyscallServer}
    (wakes : Wakes address count { server with keys := keys } after) :
    Wakes address count server after :=
  ⟨wakes.queue, wakes.others, wakes.resumed, wakes.caused⟩

/-- The call returns at once with this value. -/
def Returns (result : Result) (value : Int) : Prop :=
  ∃ ended, result = some (value, ended)

/-- What a futex call does, command by command. -/
def Served (server : SyscallServer) (thread : ThreadId) (args : FutexArgs)
    (machine : Machine) (after : SyscallServer) (result : Result) : Prop :=
  let address := server.va2pa thread args.uaddr
  let target := server.va2pa thread args.uaddr2
  let longest := min (rounds args.val) (server.futexes address).length
  match args.cmd with
  | .wait | .waitBitset =>
      if args.val = machine.actVal then
        result = none ∧ ∃ mask timeout,
          after.futexes address =
            server.futexes address ++ [⟨thread, mask, timeout⟩]
      else
        Returns result (-eWouldBlock) ∧
          after.futexes = server.futexes ∧ after.threads = server.threads
  | .wake | .wakeBitset =>
      Returns result longest ∧
        Wakes address (rounds args.val) server after
  | .wakeOp =>
      ∃ word opRet middle,
        futexDoOp args.val3 machine.oldVal = some (word, opRet) ∧
        Wakes address (rounds args.val) server middle ∧
        Wakes target (if opRet then rounds args.val2 else 0) middle after ∧
        Returns result (longest + min (if opRet then rounds args.val2 else 0)
          (middle.futexes target).length : Nat)
  | .cmpRequeue =>
      if args.val3 = machine.actVal then
        Returns result longest ∧
          ∃ middle, Wakes address (rounds args.val) server middle ∧
            Requeues address target middle after
      else
        Returns result (-eAgain) ∧
          after.futexes = server.futexes ∧ after.threads = server.threads

/-- The state of the waiting threads after a call that returned or blocked. -/
def Kept (pending : ThreadId → Option Blocked) (thread : ThreadId)
    (after : SyscallServer) : Result → Prop
  | some _ => Inv pending after
  | none => Inv (update pending thread (some .futexWait)) after

theorem Inv.futexWait (inv : Inv pending server) {thread : ThreadId}
    {uaddr : Address} {val actVal mask : Word} {currTime timeout : Time}
    {after : SyscallServer} {result : Result}
    (outside : pending thread = none)
    (awake : ¬ server.threads.Stalled thread) (matchable : mask ≠ 0)
    (served : server.futexWait thread uaddr val actVal mask currTime timeout =
      (after, result)) :
    (if val = actVal then
      result = none ∧ ∃ mask timeout,
        after.futexes (server.va2pa thread uaddr) =
          server.futexes (server.va2pa thread uaddr) ++
            [⟨thread, mask, timeout⟩]
    else
      Returns result (-eWouldBlock) ∧
        after.futexes = server.futexes ∧ after.threads = server.threads) ∧
    Kept pending thread after result := by
  obtain ⟨found, known⟩ := inv.findFutexByUaddr uaddr thread
  by_cases same : val = actVal
  · have taken : server.futexWait thread uaddr val actVal mask currTime
        timeout = ((server.findFutexByUaddr uaddr thread).1.enqueueWaiter
          (server.va2pa thread uaddr) thread mask timeout, none) :=
      if_neg (not_not.mpr same)
    cases taken.symm.trans served
    rw [if_pos same]
    refine ⟨⟨rfl, mask, timeout, ?_⟩,
      found.enqueueWaiter known outside awake matchable timeout⟩
    exact update_self ..
  · have taken : server.futexWait thread uaddr val actVal mask currTime
        timeout = ((server.findFutexByUaddr uaddr thread).1,
          some (-eWouldBlock, currTime)) :=
      if_pos same
    cases taken.symm.trans served
    rw [if_neg same]
    exact ⟨⟨⟨_, rfl⟩, rfl, rfl⟩, found⟩

theorem Inv.futexWake (inv : Inv pending server) {thread : ThreadId}
    {uaddr : Address} {nrWake : Word} {currTime : Time} {machine : Machine}
    {after : SyscallServer} {result : Result}
    (served : server.futexWake thread uaddr nrWake bitsetMatchAny currTime
      machine = (after, result)) :
    Returns result (min (rounds nrWake)
      (server.futexes (server.va2pa thread uaddr)).length : Nat) ∧
    Wakes (server.va2pa thread uaddr) (rounds nrWake) server after ∧
    Inv pending after := by
  obtain ⟨found, _⟩ := inv.findFutexByUaddr uaddr thread
  obtain ⟨last, looped, wakes, _, final⟩ := found.wakeLoop
    (server.va2pa thread uaddr)
    (currTime + server.applyRescheduleCost machine true) (rounds nrWake) 0
  have unfolded :=
    (congrArg (server.wokenUp currTime machine) looped).symm.trans served
  cases unfolded
  exact ⟨⟨_, by rw [Nat.zero_add]; rfl⟩, wakes.of_found, final⟩

theorem Inv.wakeSecond (inv : Inv pending server) (opRet : Bool)
    (address : Address) (time : Time) (nrWake : Word) (woken : Nat) :
    ∃ after,
      SyscallServer.wakeSecond opRet address time nrWake (server, woken) =
        (after, woken + min (if opRet then rounds nrWake else 0)
          (server.futexes address).length) ∧
      Wakes address (if opRet then rounds nrWake else 0) server after ∧
      Inv pending after := by
  cases opRet with
  | false => exact ⟨server, by simp [SyscallServer.wakeSecond], .zero .., inv⟩
  | true =>
      obtain ⟨after, looped, wakes, _, final⟩ :=
        inv.wakeLoop address time (rounds nrWake) woken
      exact ⟨after, looped, wakes, final⟩

theorem Inv.futexWakeOp (inv : Inv pending server) {thread : ThreadId}
    {uaddr uaddr2 : Address} {nrWake nrWake2 op : Word} {currTime : Time}
    {machine : Machine} {after : SyscallServer} {result : Result}
    (served : server.futexWakeOp thread uaddr uaddr2 nrWake nrWake2 op currTime
      machine = some (after, result)) :
    (∃ word opRet middle, futexDoOp op machine.oldVal = some (word, opRet) ∧
      Wakes (server.va2pa thread uaddr) (rounds nrWake) server middle ∧
      Wakes (server.va2pa thread uaddr2)
        (if opRet then rounds nrWake2 else 0) middle after ∧
      Returns result ((min (rounds nrWake)
          (server.futexes (server.va2pa thread uaddr)).length +
        min (if opRet then rounds nrWake2 else 0)
          (middle.futexes (server.va2pa thread uaddr2)).length : Nat))) ∧
    Inv pending after := by
  obtain ⟨⟨word, opRet⟩, done, rest⟩ := Option.bind_eq_some_iff.mp served
  obtain ⟨found, _⟩ := inv.findFutexByUaddr uaddr thread
  obtain ⟨found, _⟩ := found.findFutexByUaddr uaddr2 thread
  obtain ⟨middle, first, wakes, _, kept⟩ := found.wakeLoop
    (server.va2pa thread uaddr)
    (currTime + server.applyRescheduleCost machine true) (rounds nrWake) 0
  rw [Nat.zero_add] at first
  obtain ⟨last, second, also, final⟩ := kept.wakeSecond opRet
    (server.va2pa thread uaddr2)
    (currTime + server.applyRescheduleCost machine true) nrWake2
    (min (rounds nrWake) (server.futexes (server.va2pa thread uaddr)).length)
  have loops := (congrArg (SyscallServer.wakeSecond opRet
    (server.va2pa thread uaddr2)
    (currTime + server.applyRescheduleCost machine true) nrWake2)
    first).trans second
  have unfolded := (congrArg
    (fun pair => some (server.wokenUp currTime machine pair))
    loops).symm.trans rest
  cases unfolded
  exact ⟨⟨word, opRet, middle, done, wakes.of_found.of_found, also, _, rfl⟩,
    final⟩

theorem Inv.futexCmpRequeue (inv : Inv pending server) {thread : ThreadId}
    {uaddr uaddr2 : Address} {val val3 actVal : Word} {currTime : Time}
    {after : SyscallServer} {result : Result}
    (apart : server.va2pa thread uaddr2 ≠ server.va2pa thread uaddr)
    (same : val3 = actVal)
    (served : server.futexCmpRequeue thread uaddr val uaddr2 val3 actVal
      currTime = (after, result)) :
    Returns result (min (rounds val)
      (server.futexes (server.va2pa thread uaddr)).length : Nat) ∧
    (∃ middle, Wakes (server.va2pa thread uaddr) (rounds val) server middle ∧
      Requeues (server.va2pa thread uaddr) (server.va2pa thread uaddr2) middle
        after) ∧
    Inv pending after := by
  obtain ⟨found, _⟩ := inv.findFutexByUaddr uaddr thread
  obtain ⟨middle, looped, wakes, frame, kept⟩ := found.wakeLoop
    (server.va2pa thread uaddr) currTime (rounds val) 0
  rw [Nat.zero_add] at looped
  obtain ⟨located, known⟩ := kept.findFutexByUaddr uaddr2 thread
  have target : (middle.findFutexByUaddr uaddr2 thread).2 =
      server.va2pa thread uaddr2 :=
    congrFun (congrFun frame.va2pa thread) uaddr2
  rw [target] at known
  obtain ⟨requeues, final⟩ := located.requeueLoop apart known rfl
  have taken : server.futexCmpRequeue thread uaddr val uaddr2 val3 actVal
      currTime =
      requeueRest thread (server.va2pa thread uaddr) uaddr2 currTime
        (SyscallServer.wakeLoop (server.va2pa thread uaddr) bitsetMatchAny
          currTime (rounds val) (server.findFutexByUaddr uaddr thread).1 0) :=
    if_neg (not_not.mpr same)
  have unfolded := (taken.trans (congrArg (requeueRest thread
    (server.va2pa thread uaddr) uaddr2 currTime) looped)).symm.trans served
  simp only [requeueRest] at unfolded
  rw [target] at unfolded
  cases unfolded
  refine ⟨⟨_, rfl⟩, ⟨middle, wakes.of_found, ?_⟩, final⟩
  exact ⟨requeues.emptied, requeues.moved, requeues.others, requeues.threads⟩

theorem Inv.handleFutexCall (inv : Inv pending server) {thread : ThreadId}
    {args : FutexArgs} {machine : Machine} {currTime : Time}
    {after : SyscallServer} {result : Result}
    (outside : pending thread = none)
    (awake : ¬ server.threads.Stalled thread)
    (matchable : args.cmd = .waitBitset → args.val3 ≠ 0)
    (served : server.handleFutexCall thread args machine currTime =
      some (after, result)) :
    Served server thread args machine after result ∧
      Kept pending thread after result := by
  unfold SyscallServer.handleFutexCall at served
  unfold Served
  cases command : args.cmd with
  | wait =>
      simp only [command, Option.some.injEq] at served ⊢
      exact inv.futexWait outside awake (by decide) served
  | waitBitset =>
      simp only [command, Option.some.injEq] at served ⊢
      exact inv.futexWait outside awake (matchable command) served
  | wake | wakeBitset =>
      simp only [command, Option.some.injEq] at served ⊢
      obtain ⟨⟨ended, rfl⟩, wakes, final⟩ := inv.futexWake served
      exact ⟨⟨⟨_, rfl⟩, wakes⟩, final⟩
  | wakeOp =>
      simp only [command] at served ⊢
      obtain ⟨⟨word, opRet, middle, done, wakes, also, ended, rfl⟩, final⟩ :=
        inv.futexWakeOp served
      exact ⟨⟨word, opRet, middle, done, wakes, also, _, rfl⟩, final⟩
  | cmpRequeue =>
      simp only [command] at served ⊢
      by_cases equal : args.uaddr = args.uaddr2
      · rw [if_pos equal] at served
        cases served
      rw [if_neg equal, Option.some.injEq] at served
      have apart : server.va2pa thread args.uaddr2 ≠
          server.va2pa thread args.uaddr :=
        (inv.mapped thread).ne (Ne.symm equal)
      by_cases same : args.val3 = machine.actVal
      · rw [if_pos same]
        obtain ⟨⟨ended, rfl⟩, moved, final⟩ :=
          inv.futexCmpRequeue apart same served
        exact ⟨⟨⟨_, rfl⟩, moved⟩, final⟩
      · have taken : server.futexCmpRequeue thread args.uaddr args.val
            args.uaddr2 args.val3 machine.actVal currTime =
            ((server.findFutexByUaddr args.uaddr thread).1,
              some (-eAgain, currTime)) :=
          if_pos same
        cases taken.symm.trans served
        rw [if_neg same]
        exact ⟨⟨⟨_, rfl⟩, rfl, rfl⟩, (inv.findFutexByUaddr args.uaddr thread).1⟩

end SyscallServer

namespace FutexSystem

open SyscallServer (Served TimesOut)

variable {system next : FutexSystem}

def Inv (system : FutexSystem) : Prop :=
  system.server.Inv system.pending

theorem inv_initial (rescheduleCost : Time)
    {va2pa : ThreadId → Address → Address}
    (injective : ∀ thread, Function.Injective (va2pa thread)) :
    (initial rescheduleCost va2pa).Inv where
  parked := .of_empty (fun place => by cases place <;> rfl)
    fun _ stalled => by cases stalled
  masks := fun member => (List.not_mem_nil member).elim
  known := fun nonempty => absurd rfl nonempty
  distinct := List.nodup_nil
  waiting := fun member => (List.not_mem_nil member).elim
  asleep := fun member => (List.not_mem_nil member).elim
  told := fun called => by cases called
  mapped := injective

/-- A resumed thread leaves its call. -/
theorem Inv.leave (inv : system.Inv) {thread : ThreadId}
    (awake : ¬ system.server.threads.Stalled thread) :
    system.server.Inv (update system.pending thread none) := by
  have elsewhere : ∀ {place other}, other ∈ system.server.queue place →
      update system.pending thread none other =
        system.pending other := by
    intro place other member
    refine update_of_ne ?_ _ _
    rintro rfl
    exact awake (inv.parked.stalled member)
  refine { inv with waiting := ?_, asleep := ?_, told := ?_ }
  · intro address waiter member
    have queued : waiter.thread ∈ system.server.queue (.futex address) :=
      List.mem_map_of_mem member
    rw [elsewhere queued]
    exact inv.waiting member
  · intro waiter member
    have queued : waiter.thread ∈ system.server.queue .sleeping :=
      List.mem_map_of_mem member
    rw [elsewhere queued]
    exact inv.asleep member
  · intro other called
    by_cases same : other = thread
    · subst same
      rw [update_self] at called
      cases called
    · rw [update_of_ne same] at called
      exact inv.told called

/-- What holds of every state: a thread stalled in `futexWait` is in exactly
one futex queue, and only stalled threads are queued. -/
structure Lawful (system : FutexSystem) : Prop where
  one_queue : ∀ {thread}, system.server.threads.Stalled thread →
    system.pending thread = some .futexWait →
      ∃! address, thread ∈ (system.server.futexes address).map (·.thread)
  once : ∀ address,
    ((system.server.futexes address).map (·.thread)).Nodup
  queued_stalled : ∀ {address waiter},
    waiter ∈ system.server.futexes address →
      system.server.threads.Stalled waiter.thread ∧
        system.pending waiter.thread = some .futexWait

theorem Inv.lawful (inv : system.Inv) : system.Lawful where
  one_queue := by
    intro thread stalled waits
    obtain ⟨place, member, unique⟩ := inv.parked.existsUnique stalled
    cases place with
    | sleeping =>
        obtain ⟨waiter, inside, rfl⟩ := List.mem_map.mp member
        rw [inv.asleep inside] at waits
        cases waits
    | futex address =>
        refine ⟨address, member, fun other also => ?_⟩
        exact FutexPlace.futex.inj (unique (.futex other) also)
  once := fun address => inv.parked.nodup (.futex address)
  queued_stalled := by
    intro address waiter member
    have queued : waiter.thread ∈ system.server.queue (.futex address) :=
      List.mem_map_of_mem member
    exact ⟨inv.parked.stalled queued, inv.waiting member⟩

/-- What holds of every step. A call does what its command says, the scan
resumes waiters whose timeouts have passed, and a wait returns 0 after a wake
and `-ETIMEDOUT` after a timeout. -/
structure LawfulStep (before : FutexSystem) (action : Action)
    (after : FutexSystem) (returned : Option Returned) : Prop where
  served : ∀ {thread args machine time},
    action = .futex thread args machine time →
      ∃ result, Served before.server thread args machine after.server result ∧
        returned = result.map fun (value, ended) => ⟨thread, value, ended⟩
  scans : ∀ {time visited}, action = .periodic time visited →
    TimesOut time before.server after.server
  returns : ∀ {thread}, action = .leave thread →
    before.pending thread = some .futexWait →
      ∃ cause ended, before.server.cause thread = some cause ∧
        returned = some ⟨thread,
          match cause with
          | .wake => 0
          | .timeout => -SyscallServer.eTimedOut, ended⟩

theorem Inv.step (inv : system.Inv) {action : Action}
    {returned : Option Returned}
    (stepped : system.step action = some (next, returned)) :
    next.Inv ∧ LawfulStep system action next returned := by
  cases action with
  | futex thread args machine time =>
      simp only [FutexSystem.step] at stepped
      split at stepped
      next able =>
        obtain ⟨⟨outside, awake⟩, matchable⟩ := able
        obtain ⟨⟨server, result⟩, handled, same⟩ :=
          Option.map_eq_some_iff.mp stepped
        obtain ⟨served, kept⟩ :=
          inv.handleFutexCall outside awake matchable handled
        cases result with
        | none =>
            cases same
            refine ⟨kept, ?_, ?_, ?_⟩
            · intro _ _ _ _ equal
              cases equal
              exact ⟨none, served, rfl⟩
            · intro _ _ impossible
              cases impossible
            · intro _ impossible
              cases impossible
        | some result =>
            cases same
            refine ⟨kept, ?_, ?_, ?_⟩
            · intro _ _ _ _ equal
              cases equal
              exact ⟨some result, served, rfl⟩
            · intro _ _ impossible
              cases impossible
            · intro _ impossible
              cases impossible
      · cases stepped
  | sleep thread wakeTime =>
      simp only [FutexSystem.step] at stepped
      split at stepped
      next outside =>
        cases stepped
        refine ⟨inv.handleSleepCall outside.1 outside.2 wakeTime, ?_, ?_, ?_⟩
        · intro _ _ _ _ impossible
          cases impossible
        · intro _ _ impossible
          cases impossible
        · intro _ impossible
          cases impossible
      · cases stepped
  | periodic time visited =>
      simp only [FutexSystem.step] at stepped
      split at stepped
      next all =>
        cases stepped
        refine ⟨inv.futexPeriodic time visited, ?_, ?_, ?_⟩
        · intro _ _ _ _ impossible
          cases impossible
        · intro _ _ equal
          cases equal
          exact inv.timesOut time all
        · intro _ impossible
          cases impossible
      · cases stepped
  | leave thread =>
      simp only [FutexSystem.step] at stepped
      split at stepped
      · cases stepped
      next awake =>
        obtain ⟨blocked, called, same⟩ := Option.map_eq_some_iff.mp stepped
        cases same
        refine ⟨inv.leave awake, ?_, ?_, ?_⟩
        · intro _ _ _ _ impossible
          cases impossible
        · intro _ _ impossible
          cases impossible
        · intro _ equal waits
          cases equal
          obtain rfl : blocked = .futexWait := by simpa [called] using waits
          obtain ⟨cause, caused, message⟩ := inv.told waits awake
          refine ⟨cause, (system.server.threads.wakeup thread).time, caused, ?_⟩
          rw [value, message]
          cases cause <;> rfl

/-- A step of the system, whatever it returns. -/
def Steps (before after : FutexSystem) : Prop :=
  ∃ action returned, before.step action = some (after, returned)

/-- After every run of the threads and the periodic scan the queues are
lawful, and so is every step that follows. -/
theorem futexes_lose_no_waiter (rescheduleCost : Time)
    (va2pa : ThreadId → Address → Address)
    (injective : ∀ thread, Function.Injective (va2pa thread))
    (actions : List Action) (system : FutexSystem)
    (reached : run actions (initial rescheduleCost va2pa) = some system) :
    system.Lawful ∧
    ∀ action next returned, system.step action = some (next, returned) →
      LawfulStep system action next returned := by
  have sound : ∀ before action after,
      (FutexSystem.step before action).map Prod.fst = some after →
        Steps before after := by
    intro before action after stepped
    obtain ⟨⟨server, returned⟩, taken, rfl⟩ :=
      Option.map_eq_some_iff.mp stepped
    exact ⟨action, returned, taken⟩
  have inv : system.Inv := by
    refine Library.invariant_of_reflTransGen Inv ?_
      (inv_initial rescheduleCost injective)
      (Library.reflTransGen_of_foldlM sound reached)
    rintro before after inv ⟨action, returned, stepped⟩
    exact (inv.step stepped).1
  exact ⟨inv.lawful, fun _ _ _ stepped => (inv.step stepped).2⟩

/-- Thread 0 waits, is requeued and woken; thread 1 times out. -/
theorem futexes_lose_no_waiter_requeued :
    ∃ system,
      run [.futex 0 { uaddr := 8, cmd := .wait } {} 10,
        .futex 1 { uaddr := 8, cmd := .wait } { timeoutVal := some 5 } 20,
        .futex 2 { uaddr := 8, cmd := .cmpRequeue, uaddr2 := 16 } {} 21,
        .futex 2 { uaddr := 16, cmd := .wake, val := 1 } {} 22,
        .periodic 30 [8, 16]] (initial 5 fun _ => id) = some system ∧
      (system.server.cause 0, system.server.cause 1) =
        (some .wake, some .timeout) ∧
      system.Lawful := by
  have reached :
      (run [.futex 0 { uaddr := 8, cmd := .wait } {} 10,
        .futex 1 { uaddr := 8, cmd := .wait } { timeoutVal := some 5 } 20,
        .futex 2 { uaddr := 8, cmd := .cmpRequeue, uaddr2 := 16 } {} 21,
        .futex 2 { uaddr := 16, cmd := .wake, val := 1 } {} 22,
        .periodic 30 [8, 16]] (initial 5 fun _ => id)).map
        (fun system => (system.server.cause 0, system.server.cause 1)) =
        some (some .wake, some .timeout) := by
    decide
  obtain ⟨system, ran, causes⟩ := Option.map_eq_some_iff.mp reached
  exact ⟨system, ran, causes,
    (futexes_lose_no_waiter 5 _ (fun _ => injective_id) _ system
      ran).1⟩

end FutexSystem

end ChipletSniper.Threads
