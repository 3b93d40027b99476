import ChipletSniper.Library.Waiting
import ChipletSniper.Threads.SyncServer

/-!
# The invariant of the synchronisation server

Stalled threads wait in exactly one queue, every queue keeps its order, and a
thread that has left its queue for a mutex owns it.
-/

namespace ChipletSniper.Threads

open Function

open Library (Parked)

/-- The queues in which a thread can wait. -/
inductive Place where
  | mutex (mux : MutexId)
  | cond (cond : CondId)
  | barrier (barrier : Nat)
  deriving DecidableEq, Repr

/-- The mutex a call returns with. -/
def Call.mutex : Call → Option MutexId
  | .mutexLock mux _ => some mux
  | .condWait _ mux => some mux
  | _ => none

/-- The arrivals are the groups released so far and those still waiting, and
every group is full. -/
structure SimBarrier.Grouped (barrier : SimBarrier) : Prop where
  positive : 0 < barrier.count.toNat
  arrived : barrier.arrived = barrier.released.flatten ++ barrier.waiting
  full : ∀ group ∈ barrier.released, group.length = barrier.count.toNat
  short : barrier.waiting.length < barrier.count.toNat

namespace SyncServer

def queue (server : SyncServer) : Place → List ThreadId
  | .mutex mux => (server.mutexes mux).waiting
  | .cond cond => (server.conds cond).waiting.map (·.thread)
  | .barrier barrier => (server.barriers[barrier]?.map (·.waiting)).getD []

/-- The histories of the objects and what the queued threads are waiting
for. -/
structure Consistent (pending : ThreadId → Option Call)
    (server : SyncServer) : Prop where
  free : ∀ {mux}, (server.mutexes mux).owner = none →
    (server.mutexes mux).waiting = []
  served : ∀ mux, (server.mutexes mux).joined =
    (server.mutexes mux).granted ++ (server.mutexes mux).waiting
  woken : ∀ cond, (server.conds cond).joined =
    (server.conds cond).woken ++ (server.conds cond).waiting
  grouped : ∀ barrier ∈ server.barriers, barrier.Grouped
  locking : ∀ {mux thread}, thread ∈ (server.mutexes mux).waiting →
    ∃ call, pending thread = some call ∧ call.mutex = some mux
  waiting : ∀ {cond waiter}, waiter ∈ (server.conds cond).waiting →
    pending waiter.thread = some (.condWait cond waiter.mutex)
  arriving : ∀ {barrier thread}, thread ∈ server.queue (.barrier barrier) →
    pending thread = some (.barrierWait barrier)
  owns : ∀ {thread call mux}, pending thread = some call →
    call.mutex = some mux → ¬ server.threads.Stalled thread →
      (server.mutexes mux).owner = some thread

structure Inv (pending : ThreadId → Option Call) (server : SyncServer) :
    Prop extends Consistent pending server where
  parked : Parked server.queue server.threads.Stalled

variable {pending : ThreadId → Option Call} {server : SyncServer}

theorem queue_setMutex (server : SyncServer) (mux : MutexId)
    (mutex : SimMutex) :
    (server.setMutex mux mutex).queue =
      update server.queue (.mutex mux) mutex.waiting := by
  funext place
  cases place with
  | mutex other =>
      by_cases same : other = mux
      · subst same
        simp [queue, setMutex]
      · simp [queue, setMutex, same]
  | cond => rfl
  | barrier => rfl

theorem queue_setCond (server : SyncServer) (cond : CondId)
    (value : SimCond) :
    (server.setCond cond value).queue =
      update server.queue (.cond cond)
        (value.waiting.map (·.thread)) := by
  funext place
  cases place with
  | cond other =>
      by_cases same : other = cond
      · subst same
        simp [queue, setCond]
      · simp [queue, setCond, same]
  | mutex => rfl
  | barrier => rfl

theorem queue_setBarrier (server : SyncServer) {index : Nat}
    {barrier : SimBarrier} (found : server.barriers[index]? = some barrier)
    (value : SimBarrier) :
    { server with barriers := server.barriers.set index value }.queue =
      update server.queue (.barrier index) value.waiting := by
  have inside := (List.getElem?_eq_some_iff.mp found).1
  funext place
  cases place with
  | barrier other =>
      by_cases same : other = index
      · subst same
        simp [queue, inside]
      · simp [queue, same, List.getElem?_set_ne (Ne.symm same)]
  | mutex => rfl
  | cond => rfl

/-- A change of one mutex and of the threads' states. -/
theorem Consistent.setMutex (consistent : Consistent pending server)
    {mux : MutexId} {mutex : SimMutex} (threads : ThreadManager)
    {calls : ThreadId → Option Call}
    (parked : Parked
      (update server.queue (.mutex mux) mutex.waiting)
      threads.Stalled)
    (free : mutex.owner = none → mutex.waiting = [])
    (served : mutex.joined = mutex.granted ++ mutex.waiting)
    (kept : ∀ {thread call},
      pending thread = some call → calls thread = some call)
    (locking : ∀ thread ∈ mutex.waiting,
      ∃ call, calls thread = some call ∧ call.mutex = some mux)
    (owns : ∀ {thread call other}, calls thread = some call →
      call.mutex = some other → ¬ threads.Stalled thread →
        (update server.mutexes mux mutex other).owner =
          some thread) :
    Inv calls { server.setMutex mux mutex with threads := threads } where
  parked := parked.of_eq (congrFun (queue_setMutex server mux mutex))
    fun _ => Iff.rfl
  free := by
    intro other
    by_cases same : other = mux
    · subst same
      simpa [SyncServer.setMutex] using free
    · simpa [SyncServer.setMutex, same] using consistent.free
  served := by
    intro other
    by_cases same : other = mux
    · subst same
      simpa [SyncServer.setMutex] using served
    · simpa [SyncServer.setMutex, same] using consistent.served other
  woken := consistent.woken
  grouped := consistent.grouped
  locking := by
    intro other thread
    by_cases same : other = mux
    · subst same
      simpa [SyncServer.setMutex] using locking thread
    · intro member
      have before : thread ∈ (server.mutexes other).waiting := by
        simpa [SyncServer.setMutex, same] using member
      obtain ⟨call, called, wants⟩ := consistent.locking before
      exact ⟨call, kept called, wants⟩
  waiting := fun member => kept (consistent.waiting member)
  arriving := fun member => kept (consistent.arriving member)
  owns := owns

/-- A thread outside every call takes a mutex nobody owns. -/
theorem Inv.take (inv : Inv pending server) {mux : MutexId}
    {thread : ThreadId} (unowned : (server.mutexes mux).owner = none) :
    Inv pending (server.setOwner mux (some thread)) := by
  refine inv.toConsistent.setMutex server.threads ?_ ?_
    (inv.served mux) id (fun _ => inv.locking) ?_
  · rw [update_eq_self_iff.mpr (by rfl)]
    exact inv.parked
  · intro impossible
    cases impossible
  · intro other call target called wants awake
    have owner := inv.owns called wants awake
    by_cases same : target = mux
    · subst same
      rw [unowned] at owner
      cases owner
    · rwa [update_of_ne same]

theorem update_kept {thread : ThreadId} (outside : pending thread = none)
    (call : Call) {other : ThreadId} {pended : Call}
    (called : pending other = some pended) :
    update pending thread (some call) other = some pended := by
  have different : other ≠ thread := by
    rintro rfl
    rw [outside] at called
    cases called
  rwa [update_of_ne different]

/-- The calls of the threads that are awake, when one more thread stalls in a
call. -/
theorem Consistent.owns_stalled (consistent : Consistent pending server)
    {thread : ThreadId} {call : Call} {reason : StallType}
    {other : ThreadId} {pended : Call} {mux : MutexId}
    (called : update pending thread (some call) other = some pended)
    (wants : pended.mutex = some mux)
    (awake : ¬ (server.threads.stallThread thread reason).Stalled other) :
    (server.mutexes mux).owner = some other := by
  rw [ThreadManager.stalled_stallThread, not_or] at awake
  rw [update_of_ne awake.1] at called
  exact consistent.owns called wants awake.2

/-- A thread joins the queue of a mutex that is owned. -/
theorem Inv.enqueue (inv : Inv pending server) {mux : MutexId}
    {thread owner : ThreadId} {call : Call}
    (owned : (server.mutexes mux).owner = some owner)
    (outside : pending thread = none)
    (awake : ¬ server.threads.Stalled thread)
    (wants : call.mutex = some mux) :
    Inv (update pending thread (some call))
      { server.pushWaiter mux thread with
        threads := server.threads.stallThread thread .mutex } := by
  refine inv.toConsistent.setMutex _ ?_ ?_ ?_ (update_kept outside call) ?_ ?_
  · refine (inv.parked.push awake (.mutex mux)).of_eq (fun _ => rfl) ?_
    exact fun other => ThreadManager.stalled_stallThread _ thread other .mutex
  · intro unowned
    rw [owned] at unowned
    cases unowned
  · simp [inv.served mux]
  · intro other member
    rcases List.mem_append.mp member with before | last
    · obtain ⟨pended, called, same⟩ := inv.locking before
      exact ⟨pended, update_kept outside call called, same⟩
    · obtain rfl := List.mem_singleton.mp last
      exact ⟨call, update_self .., wants⟩
  · intro other pended target called also still
    have before := inv.owns_stalled called also still
    by_cases same : target = mux
    · subst same
      rwa [update_self]
    · rwa [update_of_ne same]

/-- The owner, outside every call, gives up a mutex without waiters. -/
theorem Inv.release (inv : Inv pending server) {mux : MutexId}
    {thread : ThreadId} (owned : (server.mutexes mux).owner = some thread)
    (outside : pending thread = none)
    (empty : (server.mutexes mux).waiting = []) :
    Inv pending (server.setOwner mux none) := by
  refine inv.toConsistent.setMutex server.threads ?_ (fun _ => empty)
    (inv.served mux) id (fun _ => inv.locking) ?_
  · rw [update_eq_self_iff.mpr (by rfl)]
    exact inv.parked
  · intro other call target called wants awake
    have owner := inv.owns called wants awake
    by_cases same : target = mux
    · subst same
      obtain rfl : thread = other := by simpa [owned] using owner
      rw [outside] at called
      cases called
    · rwa [update_of_ne same]

/-- The owner, outside every call, hands a mutex to its longest waiter. -/
theorem Inv.handOver (inv : Inv pending server) {mux : MutexId}
    {thread waiter : ThreadId} {rest : List ThreadId} {time : Time}
    (owned : (server.mutexes mux).owner = some thread)
    (outside : pending thread = none)
    (front : (server.mutexes mux).waiting = waiter :: rest) :
    Inv pending (server.handOver mux waiter rest time) := by
  have inside : waiter ∈ (server.mutexes mux).waiting := by simp [front]
  refine inv.toConsistent.setMutex _ ?_ ?_ ?_ id ?_ ?_
  · have split : server.queue (.mutex mux) = [] ++ waiter :: rest := front
    refine (inv.parked.remove split).of_eq (fun _ => rfl) ?_
    exact fun other => ThreadManager.stalled_resumeThread _ waiter other _ _
  · intro impossible
    cases impossible
  · simp [inv.served mux, front]
  · intro other member
    exact inv.locking (by simp [front, member])
  · intro other call target called wants awake
    rw [ThreadManager.stalled_resumeThread] at awake
    by_cases resumed : other = waiter
    · subst resumed
      obtain ⟨pended, also, wanted⟩ := inv.locking inside
      obtain rfl : pended = call := by simpa [called] using also.symm
      obtain rfl : mux = target := by simpa [wants] using wanted.symm
      rw [update_self]
    · have owner := inv.owns called wants fun stalled =>
        awake ⟨resumed, stalled⟩
      by_cases same : target = mux
      · subst same
        obtain rfl : thread = other := by simpa [owned] using owner
        rw [outside] at called
        cases called
      · rwa [update_of_ne same]

/-- `unlock` by a thread outside every call. -/
theorem Inv.unlock (inv : Inv pending server) {mux : MutexId}
    {thread : ThreadId} {time : Time} {next : SyncServer}
    {owner : Option ThreadId} (outside : pending thread = none)
    (unlocked : server.unlock mux thread time = some (next, owner)) :
    Inv pending next := by
  unfold SyncServer.unlock at unlocked
  by_cases owned : (server.mutexes mux).owner = some thread
  · rw [if_pos owned] at unlocked
    split at unlocked
    next empty =>
      cases unlocked
      exact inv.release owned outside empty
    next waiter rest front =>
      cases unlocked
      exact inv.handOver owned outside front
  · rw [if_neg owned] at unlocked
    cases unlocked

/-- `unlock` stalls nobody. -/
theorem stalled_of_unlock {mux : MutexId} {thread other : ThreadId}
    {time : Time} {next : SyncServer} {owner : Option ThreadId}
    (unlocked : server.unlock mux thread time = some (next, owner))
    (stalled : next.threads.Stalled other) :
    server.threads.Stalled other := by
  unfold SyncServer.unlock at unlocked
  split at unlocked
  · split at unlocked
    · cases unlocked
      exact stalled
    · cases unlocked
      exact ((ThreadManager.stalled_resumeThread ..).mp stalled).2
  · cases unlocked

/-- A thread outside every call joins the queue of a condition variable. -/
theorem Inv.enqueueCond (inv : Inv pending server) {cond : CondId}
    {mux : MutexId} {thread : ThreadId} (outside : pending thread = none)
    (awake : ¬ server.threads.Stalled thread) :
    Inv (update pending thread (some (.condWait cond mux)))
      { server.setCond cond
          { server.conds cond with
            waiting := (server.conds cond).waiting ++ [⟨thread, mux⟩]
            joined := (server.conds cond).joined ++ [⟨thread, mux⟩] } with
        threads := server.threads.stallThread thread .cond } where
  parked := by
    refine (inv.parked.push awake (.cond cond)).of_eq ?_ ?_
    · refine congrFun ((queue_setCond server cond _).trans ?_)
      simp [queue]
    · exact fun other => ThreadManager.stalled_stallThread _ thread other .cond
  free := inv.free
  served := inv.served
  woken := by
    intro other
    by_cases same : other = cond
    · subst same
      simp [setCond, inv.woken other]
    · simpa [setCond, same] using inv.woken other
  grouped := inv.grouped
  locking := by
    intro other waiter member
    obtain ⟨call, called, wants⟩ := inv.locking member
    exact ⟨call, update_kept outside _ called, wants⟩
  waiting := by
    intro other waiter member
    by_cases same : other = cond
    · subst same
      simp only [setCond, update_self, List.mem_append,
        List.mem_singleton] at member
      rcases member with before | rfl
      · exact update_kept outside _ (inv.waiting before)
      · exact update_self ..
    · refine update_kept outside _ (inv.waiting ?_)
      simpa [setCond, same] using member
  arriving := fun member => update_kept outside _ (inv.arriving member)
  owns := fun called wants awake => inv.owns_stalled called wants awake

/-- `SimCond::wait` by a thread outside every call. -/
theorem Inv.wait (inv : Inv pending server) {cond : CondId} {mux : MutexId}
    {thread : ThreadId} {time : Time} {next : SyncServer}
    (outside : pending thread = none)
    (awake : ¬ server.threads.Stalled thread)
    (waited : server.wait cond thread time mux = some next) :
    Inv (update pending thread (some (.condWait cond mux))) next := by
  obtain ⟨⟨middle, owner⟩, unlocked, same⟩ :=
    Option.bind_eq_some_iff.mp waited
  cases same
  exact (inv.unlock outside unlocked).enqueueCond outside
    fun stalled => awake (stalled_of_unlock unlocked stalled)

/-- Taking the front waiter out of a condition variable leaves it for a moment
in no queue. -/
theorem Consistent.popCond (consistent : Consistent pending server)
    {cond : CondId} {woken : CondWaiter} {rest : List CondWaiter}
    (front : (server.conds cond).waiting = woken :: rest) :
    Consistent pending (server.popCond cond woken rest) where
  free := consistent.free
  served := consistent.served
  woken := by
    intro other
    by_cases same : other = cond
    · subst same
      simp [SyncServer.popCond, setCond, consistent.woken other, front]
    · simpa [SyncServer.popCond, setCond, same] using consistent.woken other
  grouped := consistent.grouped
  locking := consistent.locking
  waiting := by
    intro other waiter member
    refine consistent.waiting ?_
    by_cases same : other = cond
    · subst same
      simp only [SyncServer.popCond, setCond, update_self] at member
      simp [front, member]
    · simpa [SyncServer.popCond, setCond, same] using member
  arriving := consistent.arriving
  owns := consistent.owns

theorem wakeFront_nil {cond : CondId} {time : Time}
    (empty : (server.conds cond).waiting = []) :
    (server.wakeFront cond time).1 = server := by
  simp [SyncServer.wakeFront, empty]

theorem wakeFront_free {cond : CondId} {time : Time} {woken : CondWaiter}
    {rest : List CondWaiter}
    (front : (server.conds cond).waiting = woken :: rest)
    (unowned : (server.mutexes woken.mutex).owner = none) :
    (server.wakeFront cond time).1 =
      { (server.popCond cond woken rest).setOwner woken.mutex
          (some woken.thread) with
        threads := server.threads.resumeThread woken.thread time false } := by
  have still : ((server.popCond cond woken rest).mutexes woken.mutex).owner =
      none := unowned
  simp only [SyncServer.wakeFront, front, SyncServer.lockAsync, still]
  rfl

theorem wakeFront_owned {cond : CondId} {time : Time} {woken : CondWaiter}
    {rest : List CondWaiter} {owner : ThreadId}
    (front : (server.conds cond).waiting = woken :: rest)
    (owned : (server.mutexes woken.mutex).owner = some owner) :
    (server.wakeFront cond time).1 =
      (server.popCond cond woken rest).pushWaiter woken.mutex
        woken.thread := by
  have still : ((server.popCond cond woken rest).mutexes woken.mutex).owner =
      some owner := owned
  simp only [SyncServer.wakeFront, front, SyncServer.lockAsync, still]

/-- A signalled thread takes the mutex or goes to the end of its queue. -/
theorem Inv.wakeFront (inv : Inv pending server) (cond : CondId)
    (time : Time) :
    Inv pending (server.wakeFront cond time).1 := by
  cases front : (server.conds cond).waiting with
  | nil => exact (wakeFront_nil front).symm ▸ inv
  | cons woken rest =>
      have popped := inv.toConsistent.popCond front
      have split : server.queue (.cond cond) =
          [] ++ woken.thread :: rest.map (·.thread) := by
        simp [queue, front]
      have called : pending woken.thread = some (.condWait cond woken.mutex) :=
        inv.waiting (by simp [front])
      cases held : (server.mutexes woken.mutex).owner with
      | none =>
          rw [wakeFront_free front held]
          refine popped.setMutex _ ?_ ?_ (popped.served _) id
            (fun _ => popped.locking) ?_
          · rw [SyncServer.popCond, queue_setCond,
              update_eq_self_iff.mpr (by rfl)]
            refine (inv.parked.remove split).of_eq (fun _ => rfl) ?_
            exact fun other => ThreadManager.stalled_resumeThread ..
          · intro impossible
            cases impossible
          · intro other call target pended wants awake
            rw [ThreadManager.stalled_resumeThread] at awake
            by_cases resumed : other = woken.thread
            · subst resumed
              obtain rfl : call = .condWait cond woken.mutex := by
                simpa [called] using pended.symm
              obtain rfl : woken.mutex = target := by
                simpa [Call.mutex] using wants
              rw [update_self]
            · have owner := inv.owns pended wants fun stalled =>
                awake ⟨resumed, stalled⟩
              have apart : target ≠ woken.mutex := by
                rintro rfl
                rw [held] at owner
                cases owner
              rwa [update_of_ne apart]
      | some owner =>
          rw [wakeFront_owned front held]
          refine popped.setMutex server.threads ?_ ?_ ?_ id ?_ ?_
          · rw [SyncServer.popCond, queue_setCond]
            exact inv.parked.move split (by simp)
          · intro unowned
            exact absurd (held.symm.trans unowned) (by simp)
          · simp [popped.served woken.mutex]
          · intro other member
            rcases List.mem_append.mp member with before | last
            · exact popped.locking before
            · obtain rfl := List.mem_singleton.mp last
              exact ⟨_, called, rfl⟩
          · intro other call target pended wants awake
            have owns := popped.owns pended wants awake
            by_cases same : target = woken.mutex
            · subst same
              rwa [update_self]
            · rwa [update_of_ne same]

theorem Inv.broadcastLoop (inv : Inv pending server) (cond : CondId)
    (time : Time) (rounds : Nat) :
    Inv pending (SyncServer.broadcastLoop cond time rounds server) := by
  induction rounds generalizing server with
  | zero => exact inv
  | succ rounds ih =>
      unfold SyncServer.broadcastLoop
      split
      · exact inv
      · exact ih (inv.wakeFront cond time)

end SyncServer

end ChipletSniper.Threads
