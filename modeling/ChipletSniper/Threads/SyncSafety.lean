import ChipletSniper.Library.Runs
import ChipletSniper.Threads.SyncInvariant

/-!
# Waiting for mutexes, condition variables and barriers

Every call keeps the invariant, so it holds after every run of the threads.
-/

namespace ChipletSniper.Threads

open Function

open Library (Parked)

namespace SyncServer

variable {pending : ThreadId → Option Call} {server : SyncServer}

/-! ## Barriers -/

/-- A change of one barrier and of the threads' states. -/
theorem Inv.setBarrier (inv : Inv pending server) {index : Nat}
    {barrier value : SimBarrier}
    (found : server.barriers[index]? = some barrier)
    (threads : ThreadManager) {calls : ThreadId → Option Call}
    (parked : Parked
      (update server.queue (.barrier index) value.waiting)
      threads.Stalled)
    (grouped : value.Grouped)
    (kept : ∀ {thread call},
      pending thread = some call → calls thread = some call)
    (arriving : ∀ thread ∈ value.waiting,
      calls thread = some (.barrierWait index))
    (owns : ∀ {thread call mux}, calls thread = some call →
      call.mutex = some mux → ¬ threads.Stalled thread →
        (server.mutexes mux).owner = some thread) :
    Inv calls
      { server with
        barriers := server.barriers.set index value
        threads := threads } where
  parked := parked.of_eq (congrFun (queue_setBarrier server found value))
    fun _ => Iff.rfl
  free := inv.free
  served := inv.served
  woken := inv.woken
  grouped := by
    intro other member
    rcases List.mem_or_eq_of_mem_set member with before | rfl
    · exact inv.grouped other before
    · exact grouped
  locking := by
    intro mux thread member
    obtain ⟨call, called, wants⟩ := inv.locking member
    exact ⟨call, kept called, wants⟩
  waiting := fun member => kept (inv.waiting member)
  arriving := by
    intro other thread member
    have queues := congrFun (queue_setBarrier server found value)
      (.barrier other)
    have member : thread ∈
        update server.queue (.barrier index) value.waiting
          (.barrier other) := queues ▸ member
    by_cases same : other = index
    · subst same
      rw [update_self] at member
      exact arriving thread member
    · rw [update_of_ne (by simpa using same)] at member
      exact kept (inv.arriving member)
  owns := owns

theorem toNat_count_sub_one {count : UInt32} (positive : 0 < count.toNat) :
    (count - 1).toNat = count.toNat - 1 := by
  refine UInt32.toNat_sub_of_le count 1 ?_
  rw [UInt32.le_iff_toNat_le]
  exact positive

/-- `SimBarrier::wait` by a thread outside every call. -/
theorem Inv.arrive (inv : Inv pending server) {index : Nat}
    {barrier : SimBarrier} {thread : ThreadId}
    (found : server.barriers[index]? = some barrier)
    (outside : pending thread = none)
    (awake : ¬ server.threads.Stalled thread) (time : Time) :
    (∃ next ended, server.arrive index barrier thread time = (next, some ended) ∧
      Inv pending next) ∨
    (∃ next, server.arrive index barrier thread time = (next, none) ∧
      Inv (update pending thread (some (.barrierWait index)))
        next) := by
  have grouped := inv.grouped barrier (List.mem_of_getElem? found)
  have here : server.queue (.barrier index) = barrier.waiting := by
    simp [queue, found]
  have last := toNat_count_sub_one grouped.positive
  have short := grouped.short
  unfold SyncServer.arrive
  by_cases full : barrier.waiting.length = (barrier.count - 1).toNat
  · rw [if_pos full]
    refine .inl ⟨_, _, rfl, ?_⟩
    refine inv.setBarrier found _ ?_ ?_ id (by simp) ?_
    · refine (inv.parked.clear (.barrier index)).of_eq (fun _ => rfl) ?_
      intro other
      rw [ThreadManager.stalled_resumeAll, here]
    · refine ⟨grouped.positive, ?_, ?_, grouped.positive⟩
      · simp [grouped.arrived]
      · intro group member
        rcases List.mem_append.mp member with before | added
        · exact grouped.full group before
        · obtain rfl := List.mem_singleton.mp added
          change (barrier.waiting ++ [thread]).length = barrier.count.toNat
          rw [List.length_append, List.length_singleton]
          omega
    · intro other call mux called wants still
      rw [ThreadManager.stalled_resumeAll] at still
      refine inv.owns called wants fun stalled => still ⟨?_, stalled⟩
      intro member
      have also := inv.arriving (here.symm ▸ member)
      rw [called] at also
      cases also
      cases wants
  · rw [if_neg full]
    refine .inr ⟨_, rfl, ?_⟩
    refine inv.setBarrier found _ ?_ ?_ (update_kept outside _) ?_ ?_
    · have pushed := inv.parked.push awake (.barrier index)
      rw [here] at pushed
      refine pushed.of_eq (fun _ => rfl) ?_
      exact fun other => ThreadManager.stalled_stallThread ..
    · refine ⟨grouped.positive, ?_, grouped.full, ?_⟩
      · simp [grouped.arrived]
      · change (barrier.waiting ++ [thread]).length < barrier.count.toNat
        rw [List.length_append, List.length_singleton]
        omega
    · intro other member
      rcases List.mem_append.mp member with before | added
      · exact update_kept outside _ (inv.arriving (here.symm ▸ before))
      · obtain rfl := List.mem_singleton.mp added
        exact update_self ..
    · exact fun called wants still => inv.owns_stalled called wants still

theorem Inv.barrierInit (inv : Inv pending server) {count : UInt32}
    (positive : count ≠ 0) :
    Inv pending (server.barrierInit count) where
  parked := by
    refine inv.parked.of_eq ?_ fun _ => Iff.rfl
    intro place
    cases place with
    | mutex => rfl
    | cond => rfl
    | barrier index =>
        simp only [queue, SyncServer.barrierInit, List.getElem?_append]
        split
        · rfl
        next outside =>
          rw [List.getElem?_eq_none (by omega : server.barriers.length ≤ index)]
          cases later : index - server.barriers.length <;> simp
  free := inv.free
  served := inv.served
  woken := inv.woken
  grouped := by
    intro barrier member
    rcases List.mem_append.mp member with before | added
    · exact inv.grouped barrier before
    · obtain rfl := List.mem_singleton.mp added
      have above : 0 < count.toNat := Nat.pos_of_ne_zero fun zero =>
        positive (UInt32.toNat_inj.mp zero)
      exact ⟨above, rfl, by simp, above⟩
  locking := inv.locking
  waiting := inv.waiting
  arriving := by
    intro index thread member
    refine inv.arriving ?_
    simp only [queue, SyncServer.barrierInit, List.getElem?_append] at member ⊢
    split at member
    · exact member
    · cases later : index - server.barriers.length <;> simp [later] at member
  owns := inv.owns

end SyncServer

namespace SyncServer

variable {pending : ThreadId → Option Call} {server : SyncServer}

/-! ## Signals -/

/-- The front waiter of a condition variable goes to the mutex it waited with:
it owns the mutex and runs, or it is the last in the queue of the mutex.
Nothing else changes in any queue. -/
structure Moved (cond : CondId) (woken : CondWaiter)
    (before after : SyncServer) : Prop where
  front : (before.conds cond).waiting =
    woken :: (after.conds cond).waiting
  target :
    ((before.mutexes woken.mutex).owner = none ∧
      (after.mutexes woken.mutex).owner = some woken.thread ∧
      ¬ after.threads.Stalled woken.thread ∧
      (after.mutexes woken.mutex).waiting =
        (before.mutexes woken.mutex).waiting) ∨
    ((before.mutexes woken.mutex).owner ≠ none ∧
      (after.mutexes woken.mutex).owner = (before.mutexes woken.mutex).owner ∧
      after.threads.Stalled woken.thread ∧
      (after.mutexes woken.mutex).waiting =
        (before.mutexes woken.mutex).waiting ++ [woken.thread])
  others : ∀ place, place ≠ .cond cond → place ≠ .mutex woken.mutex →
    after.queue place = before.queue place
  threads : ∀ other ≠ woken.thread,
    (after.threads.Stalled other ↔ before.threads.Stalled other)

/-- The waiters of a list move one after the other, and nothing else does. -/
def MovedAll (cond : CondId) :
    List CondWaiter → SyncServer → SyncServer → Prop
  | [], before, after => after = before
  | woken :: rest, before, after =>
      ∃ middle, Moved cond woken before middle ∧
        MovedAll cond rest middle after

theorem Inv.moved (inv : Inv pending server) {cond : CondId}
    {woken : CondWaiter} {rest : List CondWaiter}
    (front : (server.conds cond).waiting = woken :: rest) (time : Time) :
    Moved cond woken server (server.wakeFront cond time).1 := by
  have queued : woken.thread ∈ server.queue (.cond cond) := by
    simp [queue, front]
  cases held : (server.mutexes woken.mutex).owner with
  | none =>
      rw [wakeFront_free front held]
      refine ⟨?_, .inl ⟨held, ?_, ?_, ?_⟩, ?_, ?_⟩
      · simp [popCond, setOwner, setMutex, setCond, front]
      · simp [setOwner, setMutex]
      · simp
      · simp [popCond, setOwner, setMutex, setCond]
      · intro place notCond notMutex
        change ((server.popCond cond woken rest).setMutex _ _).queue place = _
        rw [queue_setMutex, update_of_ne notMutex, popCond,
          queue_setCond, update_of_ne notCond]
      · intro other different
        simp [different]
  | some owner =>
      rw [wakeFront_owned front held]
      refine ⟨?_, .inr ⟨?_, ?_, ?_, ?_⟩, ?_, ?_⟩
      · simp [popCond, pushWaiter, setMutex, setCond, front]
      · simp [held]
      · simp [popCond, pushWaiter, setMutex, setCond]
      · exact inv.parked.stalled queued
      · simp [popCond, pushWaiter, setMutex, setCond]
      · intro place notCond notMutex
        rw [pushWaiter, queue_setMutex, update_of_ne notMutex, popCond,
          queue_setCond, update_of_ne notCond]
      · intro other _
        rfl

/-- A thread arrives at a barrier. The last thread of a group goes on and
resumes those that wait for it and no others; an earlier one queues up and
stalls. -/
structure Arrives (index : Nat) (thread : ThreadId) (old new : SimBarrier)
    (returned : Bool) (before after : SyncServer) : Prop where
  found : before.barriers[index]? = some old
  left : after.barriers = before.barriers.set index new
  count : new.count = old.count
  arrived : new.arrived = old.arrived ++ [thread]
  last : old.waiting.length + 1 = old.count.toNat →
    returned = true ∧ new.waiting = [] ∧
    new.released = old.released ++ [old.waiting ++ [thread]] ∧
    ∀ other, after.threads.Stalled other ↔
      other ∉ old.waiting ∧ before.threads.Stalled other
  early : old.waiting.length + 1 ≠ old.count.toNat →
    returned = false ∧ new.waiting = old.waiting ++ [thread] ∧
    new.released = old.released ∧
    ∀ other, after.threads.Stalled other ↔
      other = thread ∨ before.threads.Stalled other
  mutexes : after.mutexes = before.mutexes
  conds : after.conds = before.conds

end SyncServer

namespace SyncSystem

variable {system next : SyncSystem}

def Inv (system : SyncSystem) : Prop :=
  system.server.Inv system.pending

theorem inv_initial (rescheduleCost : Time) : (initial rescheduleCost).Inv where
  parked := .of_empty (fun place => by cases place <;> rfl)
    fun _ stalled => by cases stalled
  free := fun _ => rfl
  served := fun _ => rfl
  woken := fun _ => rfl
  grouped := fun _ member => (List.not_mem_nil member).elim
  locking := fun member => (List.not_mem_nil member).elim
  waiting := fun member => (List.not_mem_nil member).elim
  arriving := fun member => (List.not_mem_nil member).elim
  owns := fun called => by cases called

/-- What a call leaves behind, returned or blocked. -/
def After (system : SyncSystem) (thread : ThreadId) (call : Call) :
    SyncServer × Option (Time × Bool) → Prop
  | (server, some (_, success)) =>
      server.Inv system.pending ∧
        (success = true → ∀ {mux}, call.mutex = some mux →
          (server.mutexes mux).owner = some thread)
  | (server, none) =>
      server.Inv (update system.pending thread (some call))

theorem Inv.mutexLock (inv : system.Inv) {thread : ThreadId} {mux : MutexId}
    {tryLock : Bool} {time : Time} (outside : system.pending thread = none)
    (awake : ¬ system.server.threads.Stalled thread) :
    system.After thread (.mutexLock mux tryLock)
      (system.server.mutexLock thread mux tryLock time) := by
  unfold SyncServer.mutexLock
  split
  · exact ⟨inv, fun impossible => by cases impossible⟩
  · unfold SyncServer.lock
    cases owned : (system.server.mutexes mux).owner with
    | none =>
        refine ⟨inv.take owned, fun _ => ?_⟩
        intro other wants
        cases wants
        simp [SyncServer.setOwner, SyncServer.setMutex]
    | some owner => exact inv.enqueue owned outside awake rfl

/-- Every call a thread may make. -/
theorem Inv.serve (inv : system.Inv) {thread : ThreadId} {time : Time}
    {call : Call} {result : SyncServer × Option (Time × Bool)}
    (outside : system.pending thread = none)
    (awake : ¬ system.server.threads.Stalled thread)
    (allowed : system.Allowed thread call)
    (served : system.serve thread time call = some result) :
    system.After thread call result := by
  cases call with
  | mutexLock mux tryLock =>
      cases served
      exact inv.mutexLock outside awake
  | mutexUnlock mux =>
      obtain ⟨⟨server, ended⟩, unlocking, rfl⟩ := Option.map_eq_some_iff.mp served
      obtain ⟨⟨middle, owner⟩, unlocked, same⟩ :=
        Option.bind_eq_some_iff.mp unlocking
      cases same
      exact ⟨SyncServer.Inv.unlock inv outside unlocked,
        fun _ _ wants => by cases wants⟩
  | condWait cond mux =>
      obtain ⟨server, waited, rfl⟩ := Option.map_eq_some_iff.mp served
      exact SyncServer.Inv.wait inv outside awake waited
  | condSignal cond =>
      cases served
      exact ⟨SyncServer.Inv.wakeFront inv cond time,
        fun _ _ wants => by cases wants⟩
  | condBroadcast cond =>
      cases served
      exact ⟨SyncServer.Inv.broadcastLoop inv cond time _,
        fun _ _ wants => by cases wants⟩
  | barrierInit count =>
      cases served
      exact ⟨SyncServer.Inv.barrierInit inv allowed,
        fun _ _ wants => by cases wants⟩
  | barrierWait barrier =>
      obtain ⟨⟨server, ended⟩, arrived, rfl⟩ := Option.map_eq_some_iff.mp served
      obtain ⟨value, found, arriving⟩ := Option.map_eq_some_iff.mp arrived
      rcases SyncServer.Inv.arrive inv found outside awake time with
        ⟨after, finish, equation, kept⟩ | ⟨after, equation, kept⟩
      · rw [equation] at arriving
        cases arriving
        exact ⟨kept, fun _ _ wants => by cases wants⟩
      · rw [equation] at arriving
        cases arriving
        exact kept

/-- A resumed thread leaves its call. -/
theorem Inv.leave (inv : system.Inv) {thread : ThreadId}
    (awake : ¬ system.server.threads.Stalled thread) :
    system.server.Inv (update system.pending thread none) := by
  have elsewhere : ∀ {place other}, other ∈ system.server.queue place →
      update system.pending thread none other =
        system.pending other := by
    intro place other member
    refine update_of_ne ?_ _ _
    rintro rfl
    exact awake (inv.parked.stalled member)
  refine { inv with locking := ?_, waiting := ?_, arriving := ?_, owns := ?_ }
  · intro mux other member
    rw [elsewhere (show other ∈ system.server.queue (.mutex mux) from member)]
    exact inv.locking member
  · intro cond waiter member
    have queued : waiter.thread ∈ system.server.queue (.cond cond) :=
      List.mem_map_of_mem member
    rw [elsewhere queued]
    exact inv.waiting member
  · intro barrier other member
    rw [elsewhere member]
    exact inv.arriving member
  · intro other call mux called
    by_cases same : other = thread
    · subst same
      rw [update_self] at called
      cases called
    · rw [update_of_ne same] at called
      exact inv.owns called

/-- One step keeps the invariant, and a mutex is owned by the thread to which
a call returns with it. -/
theorem Inv.step (inv : system.Inv) {action : Action}
    {returned : Option Returned}
    (stepped : system.step action = some (next, returned)) :
    next.Inv ∧ ∀ reply ∈ returned, reply.success = true →
      ∀ {mux}, reply.call.mutex = some mux →
        (next.server.mutexes mux).owner = some reply.thread := by
  cases action with
  | call thread call time =>
      simp only [SyncSystem.step] at stepped
      split at stepped
      next able =>
        obtain ⟨outside, awake, allowed⟩ := able
        obtain ⟨result, served, same⟩ := Option.map_eq_some_iff.mp stepped
        have after := inv.serve outside awake allowed served
        obtain ⟨server, _ | ⟨ended, success⟩⟩ := result
        · cases same
          exact ⟨after, fun _ member => by cases member⟩
        · cases same
          refine ⟨after.1, fun reply member => ?_⟩
          cases member
          exact after.2
      · cases stepped
  | leave thread =>
      simp only [SyncSystem.step] at stepped
      split at stepped
      · cases stepped
      next awake =>
        obtain ⟨call, called, same⟩ := Option.map_eq_some_iff.mp stepped
        cases same
        refine ⟨inv.leave awake, fun reply member _ mux wants => ?_⟩
        cases member
        exact inv.owns called wants awake

def run (actions : List Action) (system : SyncSystem) : Option SyncSystem :=
  actions.foldlM (fun system action => (system.step action).map Prod.fst) system

/-- A step of the system, whatever it returns. -/
def Steps (before after : SyncSystem) : Prop :=
  ∃ action returned, before.step action = some (after, returned)

theorem inv_run {rescheduleCost : Time} {actions : List Action}
    (reached : run actions (initial rescheduleCost) = some system) :
    system.Inv := by
  have sound : ∀ before action after,
      (SyncSystem.step before action).map Prod.fst = some after →
        Steps before after := by
    intro before action after stepped
    obtain ⟨⟨server, returned⟩, taken, rfl⟩ :=
      Option.map_eq_some_iff.mp stepped
    exact ⟨action, returned, taken⟩
  have path := Library.reflTransGen_of_foldlM sound reached
  refine Library.invariant_of_reflTransGen Inv ?_
    (inv_initial rescheduleCost) path
  rintro before after inv ⟨action, returned, stepped⟩
  exact (inv.step stepped).1

/-- What holds in every state of the threads and the objects they wait at. -/
structure Lawful (system : SyncSystem) : Prop where
  one_queue : ∀ {thread}, system.server.threads.Stalled thread →
    ∃! place, thread ∈ system.server.queue place
  once : ∀ place, (system.server.queue place).Nodup
  queued_stalled : ∀ {place thread}, thread ∈ system.server.queue place →
    system.server.threads.Stalled thread
  unowned_empty : ∀ {mux}, (system.server.mutexes mux).owner = none →
    (system.server.mutexes mux).waiting = []
  mutex_in_order : ∀ mux, (system.server.mutexes mux).joined =
    (system.server.mutexes mux).granted ++ (system.server.mutexes mux).waiting
  cond_in_order : ∀ cond, (system.server.conds cond).joined =
    (system.server.conds cond).woken ++ (system.server.conds cond).waiting
  barrier_groups : ∀ barrier ∈ system.server.barriers,
    barrier.arrived = barrier.released.flatten ++ barrier.waiting ∧
    (∀ group ∈ barrier.released, group.length = barrier.count.toNat) ∧
    barrier.waiting.length < barrier.count.toNat

theorem Inv.lawful (inv : system.Inv) : system.Lawful where
  one_queue := inv.parked.existsUnique
  once := inv.parked.nodup
  queued_stalled := inv.parked.stalled
  unowned_empty := inv.free
  mutex_in_order := inv.served
  cond_in_order := inv.woken
  barrier_groups := fun barrier member =>
    have grouped := inv.grouped barrier member
    ⟨grouped.arrived, grouped.full, grouped.short⟩

/-- What holds of every step: calls return with the mutex they are for, a
thread that does not get a mutex is the last in its queue and an unlock gives it
to the first, a signal moves the longest waiter and a broadcast all of them, and
barriers change by arrivals only. -/
structure LawfulStep (before : SyncSystem) (action : Action)
    (after : SyncSystem) (returned : Option Returned) : Prop where
  returns_owner : ∀ reply ∈ returned, reply.success = true →
    ∀ {mux}, reply.call.mutex = some mux →
      (after.server.mutexes mux).owner = some reply.thread
  lock_waits : ∀ {thread mux tryLock time},
    action = .call thread (.mutexLock mux tryLock) time → returned = none →
      (after.server.mutexes mux).waiting =
        (before.server.mutexes mux).waiting ++ [thread] ∧
      after.server.threads.Stalled thread
  unlock_hands_over : ∀ {thread mux time waiter rest},
    action = .call thread (.mutexUnlock mux) time →
      (before.server.mutexes mux).waiting = waiter :: rest →
        (after.server.mutexes mux).owner = some waiter ∧
        (after.server.mutexes mux).waiting = rest ∧
        ¬ after.server.threads.Stalled waiter
  cond_waits : ∀ {thread cond mux time},
    action = .call thread (.condWait cond mux) time →
      (after.server.conds cond).waiting =
        (before.server.conds cond).waiting ++ [⟨thread, mux⟩] ∧
      after.server.threads.Stalled thread
  signal_moves_longest : ∀ {thread cond time},
    action = .call thread (.condSignal cond) time →
      SyncServer.MovedAll cond ((before.server.conds cond).waiting.take 1)
        before.server after.server
  broadcast_moves_all : ∀ {thread cond time},
    action = .call thread (.condBroadcast cond) time →
      SyncServer.MovedAll cond (before.server.conds cond).waiting
        before.server after.server ∧
      (after.server.conds cond).waiting = []
  barrier_arrives : ∀ {thread barrier time},
    action = .call thread (.barrierWait barrier) time →
      ∃ old new, SyncServer.Arrives barrier thread old new returned.isSome
        before.server after.server
  barriers_kept :
    (∀ thread barrier time,
      action ≠ .call thread (.barrierWait barrier) time) →
      before.server.barriers <+: after.server.barriers

end SyncSystem

/-! ## Trying a lock -/

namespace SyncServer

/-- A call of `mutexLock` with `tryLock` returns at once, queues and stalls
nobody, and takes the mutex exactly if it is free. -/
structure TryLocks (server : SyncServer) (thread : ThreadId) (mux : MutexId)
    (time : Time) : Prop where
  returned : ∃ ended success,
    (server.mutexLock thread mux true time).2 = some (ended, success) ∧
      (success = true ↔ (server.mutexes mux).owner = none)
  threads : (server.mutexLock thread mux true time).1.threads = server.threads
  waiting : ∀ other,
    ((server.mutexLock thread mux true time).1.mutexes other).waiting =
      (server.mutexes other).waiting
  conds : (server.mutexLock thread mux true time).1.conds = server.conds
  barriers :
    (server.mutexLock thread mux true time).1.barriers = server.barriers
  owned : (server.mutexes mux).owner = none →
    ((server.mutexLock thread mux true time).1.mutexes mux).owner = some thread

variable {server : SyncServer} {thread : ThreadId} {mux : MutexId}
  {time : Time}

/-- A free mutex is taken. -/
theorem tryLocks_free (free : (server.mutexes mux).owner = none) :
    server.TryLocks thread mux time := by
  have unlocked : server.isLocked mux thread = false := by
    rw [isLocked, free]
  have result : server.mutexLock thread mux true time =
      (server.setOwner mux (some thread),
        some (time + server.rescheduleCost, true)) := by
    simp [mutexLock, unlocked, lock, free]
  refine
    { returned := ⟨time + server.rescheduleCost, true, ?_, by simp [free]⟩
      threads := ?_, waiting := ?_, conds := ?_, barriers := ?_, owned := ?_ }
  · rw [result]
  · rw [result]
    rfl
  · intro other
    rw [result]
    by_cases same : other = mux
    · subst same
      simp [setOwner, setMutex]
    · simp [setOwner, setMutex, same]
  · rw [result]
    rfl
  · rw [result]
    rfl
  · intro _
    rw [result]
    simp [setOwner, setMutex]

/-- A mutex of another thread is left alone. -/
theorem tryLocks_taken {owner : ThreadId}
    (owned : (server.mutexes mux).owner = some owner)
    (different : owner ≠ thread) :
    server.TryLocks thread mux time := by
  have locked : server.isLocked mux thread = true := by
    simp [isLocked, owned, different]
  have result : server.mutexLock thread mux true time =
      (server, some (time, false)) := by
    simp [mutexLock, locked]
  refine
    { returned := ⟨time, false, ?_, by simp [owned]⟩
      threads := ?_, waiting := ?_, conds := ?_, barriers := ?_, owned := ?_ }
  · rw [result]
  · rw [result]
  · intro other
    rw [result]
  · rw [result]
  · rw [result]
  · intro free
    rw [owned] at free
    cases free

/-- `isLocked` lets the owner through, and `lock` then makes it wait for
itself. -/
theorem mutexLock_owner (owned : (server.mutexes mux).owner = some thread) :
    (server.mutexLock thread mux true time).2 = none := by
  have unlocked : server.isLocked mux thread = false := by
    simp [isLocked, owned]
  simp [mutexLock, unlocked, lock, owned]

/-- Trying a lock never blocks, except for the thread that owns it. -/
theorem tryLocks_iff (server : SyncServer) (thread : ThreadId) (mux : MutexId)
    (time : Time) :
    server.TryLocks thread mux time ↔
      (server.mutexes mux).owner ≠ some thread := by
  constructor
  · intro tries owned
    obtain ⟨ended, success, returned, -⟩ := tries.returned
    rw [mutexLock_owner owned] at returned
    cases returned
  · intro notOwner
    cases owned : (server.mutexes mux).owner with
    | none => exact tryLocks_free owned
    | some owner =>
        refine tryLocks_taken owned ?_
        rintro rfl
        exact notOwner owned

/-- Thread 0 locks a mutex and tries to lock it once more. -/
theorem tryLock_blocks_owner :
    ∃ system,
      SyncSystem.run [.call 0 (.mutexLock 0 false) 10]
        (SyncSystem.initial 5) = some system ∧
      ¬ system.server.TryLocks 0 0 20 := by
  have reached :
      (SyncSystem.run [.call 0 (.mutexLock 0 false) 10]
        (SyncSystem.initial 5)).map (fun system =>
          (system.server.mutexLock 0 0 true 20).2.isSome) = some false := by
    decide
  obtain ⟨system, ran, blocked⟩ := Option.map_eq_some_iff.mp reached
  refine ⟨system, ran, fun tries => ?_⟩
  obtain ⟨ended, success, returned, -⟩ := tries.returned
  rw [returned] at blocked
  cases blocked

end SyncServer

end ChipletSniper.Threads
