import ChipletSniper.Threads.SequentialEffects

/-!
# Sets run in order

At every moment one thread of a set is in front: the ones before it have
exited and the ones behind it have not been placed on the core. The thread in
front only stays behind on its core if it exits before the next one starts.
-/

namespace ChipletSniper.Threads

open Function

namespace SchedulerSequential

variable {n : Nat} {sizes : Fin n → Nat}
variable {scheduler next : SchedulerSequential n} {core other : Fin n}
variable {thread front : ThreadId}

/-! ## The sets -/

/-- The threads of the core's set are consecutive. -/
def InSet (sizes : Fin n → Nat) (core : Fin n) (thread : ThreadId) : Prop :=
  nextTte sizes core ≤ thread ∧ thread < nextTte sizes (core.val + 1)

instance (thread : ThreadId) : Decidable (InSet sizes core thread) :=
  inferInstanceAs (Decidable (_ ∧ _))

theorem nextTte_succ (core : Fin n) :
    nextTte sizes (core.val + 1) = nextTte sizes core + sizes core := by
  change nextTte sizes core +
    (if inside : core.val < n then sizes ⟨core, inside⟩ else 0) = _
  rw [dif_pos core.isLt]

theorem nextTte_le (sizes : Fin n → Nat) {first second : Nat}
    (before : first ≤ second) :
    nextTte sizes first ≤ nextTte sizes second := by
  induction before with
  | refl => exact Nat.le_refl _
  | step _ ih =>
      exact ih.trans (Nat.le_add_right _ _)

/-- No thread is in two sets. -/
theorem InSet.unique (first : InSet sizes core thread)
    (second : InSet sizes other thread) : core = other := by
  rcases Nat.lt_trichotomy core other with before | same | after
  · have := nextTte_le sizes (Nat.succ_le_of_lt before)
    exact absurd (first.2.trans_le this) (Nat.not_lt.mpr second.1)
  · exact Fin.ext same
  · have := nextTte_le sizes (Nat.succ_le_of_lt after)
    exact absurd (second.2.trans_le this) (Nat.not_lt.mpr first.1)

/-! ## The thread in front -/

/-- The threads that were placed on the core, in order. -/
def placed (base : PinnedScheduler n) (core : Fin n) : List ThreadId :=
  (base.placements.filter fun placement => placement.core = core).map
    Placement.thread

/-- How far the thread in front has come. -/
inductive Phase where
  | arriving
  | executing
  | lingering
  deriving DecidableEq

def Phase.view (core : Fin n) : Phase → View n
  | .arriving => .arriving core
  | .executing => .executing core
  | .lingering => .lingering core

def Phase.occupant (thread : ThreadId) : Phase → Option ThreadId
  | .lingering => none
  | _ => some thread

/-- A thread of the set is in front. -/
structure Front (sizes : Fin n → Nat) (scheduler : SchedulerSequential n)
    (core : Fin n) (front : ThreadId) (phase : Phase) : Prop where
  member : InSet sizes core front
  born : front < scheduler.base.numThreads
  running : scheduler.base.coreThreadRunning core = some front
  occupant : scheduler.base.coreThread core = phase.occupant front
  view : scheduler.base.view front = phase.view core
  next : scheduler.nextThreadToExecute core =
    if phase = .arriving then front else front + 1
  first : phase = .arriving → front = nextTte sizes core
  earlier : ∀ thread, InSet sizes core thread → thread < front →
    scheduler.base.view thread = .gone
  later : ∀ thread, InSet sizes core thread → front < thread →
    thread < scheduler.base.numThreads →
      scheduler.base.view thread = .created ∨
        scheduler.base.view thread = .waiting
  placed : placed scheduler.base core =
    List.range' (nextTte sizes core) (front + 1 - nextTte sizes core)

/-- No thread of the set has been created. -/
structure Untouched (sizes : Fin n → Nat) (scheduler : SchedulerSequential n)
    (core : Fin n) : Prop where
  running : scheduler.base.coreThreadRunning core = none
  occupant : scheduler.base.coreThread core = none
  next : scheduler.nextThreadToExecute core = nextTte sizes core
  nobody : ∀ thread, InSet sizes core thread →
    scheduler.base.numThreads ≤ thread
  placed : placed scheduler.base core = []

/-- The queue has the threads that wait. -/
structure Queued (sizes : Fin n → Nat) (scheduler : SchedulerSequential n)
    (core : Fin n) : Prop where
  queue : ∀ thread, thread ∈ scheduler.coreWaitingThreads core ↔
    InSet sizes core thread ∧ scheduler.base.view thread = .waiting
  sorted : (scheduler.coreWaitingThreads core).Pairwise (· ≤ ·)
  nodup : (scheduler.coreWaitingThreads core).Nodup

/-- What holds of a core and its set. -/
structure CoreInv (sizes : Fin n → Nat) (scheduler : SchedulerSequential n)
    (core : Fin n) : Prop where
  queued : Queued sizes scheduler core
  lane : Untouched sizes scheduler core ∨
    ∃ front phase, Front sizes scheduler core front phase

/-- Threads are counted in their sets in the order of their numbers. -/
structure Layout (sizes : Fin n → Nat) (scheduler : SchedulerSequential n) :
    Prop where
  begun : nextTte sizes scheduler.currentPinballSet ≤
    scheduler.base.numThreads
  room : scheduler.base.numThreads =
      nextTte sizes scheduler.currentPinballSet ∨
    scheduler.base.numThreads <
      nextTte sizes (scheduler.currentPinballSet + 1)
  seqs : ∀ core : Fin n, scheduler.currentPinballSet ≤ core.val →
    scheduler.seqs core = nextTte sizes (core.val + 1) -
      (max scheduler.base.numThreads (nextTte sizes core) : Nat)
  housed : ∀ thread, thread < scheduler.base.numThreads →
    ∃ core, InSet sizes core thread ∧ scheduler.base.Pinned thread core
  fresh : ∀ thread, scheduler.base.numThreads ≤ thread →
    (scheduler.base.threadInfo thread).hasAffinity = false
  unborn : ∀ thread, scheduler.base.numThreads ≤ thread →
    scheduler.base.view thread = .gone
  unhurried : scheduler.base.Unhurried

structure Inv (sizes : Fin n → Nat) (scheduler : SchedulerSequential n) :
    Prop where
  cores : ∀ core, CoreInv sizes scheduler core
  layout : Layout sizes scheduler

/-- A thread that has exited only stays on its core if it is the last of its
set. -/
def Handed (sizes : Fin n → Nat) (scheduler : SchedulerSequential n) : Prop :=
  ∀ core front, scheduler.base.coreThreadRunning core = some front →
    scheduler.base.status front = .idle → ¬ InSet sizes core (front + 1)

/-! ## One event -/

/-- An event changes one core, and the threads of its set. -/
structure Changes (sizes : Fin n → Nat) (scheduler next : SchedulerSequential n)
    (core : Fin n) (running occupant : Option ThreadId)
    (views : ThreadId → View n) (added : List (Placement n)) : Prop where
  effect : scheduler.base.Effect next.base core running occupant views added
  here : ∀ placement ∈ added, placement.core = core
  turn : ∀ other, other ≠ core →
    next.nextThreadToExecute other = scheduler.nextThreadToExecute other
  queue : ∀ other, other ≠ core →
    next.coreWaitingThreads other = scheduler.coreWaitingThreads other
  outside : ∀ thread, ¬ InSet sizes core thread →
    views thread = scheduler.base.view thread
  born : ∀ thread, ¬ InSet sizes core thread →
    (thread < next.base.numThreads ↔ thread < scheduler.base.numThreads)

variable {running occupant : Option ThreadId} {views : ThreadId → View n}
variable {added : List (Placement n)}

theorem Changes.placed_away (changes : Changes sizes scheduler next core
    running occupant views added) (apart : other ≠ core) :
    placed next.base other = placed scheduler.base other := by
  unfold placed
  rw [changes.effect.placements, List.filter_append]
  have nothing : added.filter (fun placement => placement.core = other) =
      [] := by
    refine List.filter_eq_nil_iff.mpr fun placement member => ?_
    rw [changes.here placement member, decide_eq_true_iff]
    exact fun same => apart same.symm
  rw [nothing, List.append_nil]

theorem Changes.placed_here (changes : Changes sizes scheduler next core
    running occupant views added) :
    placed next.base core =
      placed scheduler.base core ++ added.map Placement.thread := by
  unfold placed
  rw [changes.effect.placements, List.filter_append, List.map_append]
  have everything : added.filter (fun placement => placement.core = core) =
      added := by
    refine List.filter_eq_self.mpr fun placement member => ?_
    exact decide_eq_true (changes.here placement member)
  rw [everything]

theorem Changes.view_outside (changes : Changes sizes scheduler next core
    running occupant views added) (away : ¬ InSet sizes core thread) :
    next.base.view thread = scheduler.base.view thread :=
  (congrFun changes.effect.views thread).trans (changes.outside thread away)

theorem Changes.views_update {view : View n}
    (changes : Changes sizes scheduler next core running occupant
      (update scheduler.base.view thread view) added) :
    next.base.view thread = view ∧ ∀ other, other ≠ thread →
      next.base.view other = scheduler.base.view other := by
  rw [changes.effect.views]
  exact ⟨update_self _ _ _, fun _ apart =>
    update_of_ne apart _ _⟩

theorem Changes.runs_away (changes : Changes sizes scheduler next core running
    occupant views added) (apart : other ≠ core) :
    next.base.coreThreadRunning other =
      scheduler.base.coreThreadRunning other := by
  rw [changes.effect.running, update_of_ne apart]

/-- The other cores and their sets are as before. -/
theorem Changes.away (changes : Changes sizes scheduler next core running
    occupant views added) (apart : other ≠ core)
    (inv : CoreInv sizes scheduler other) : CoreInv sizes next other := by
  have outside : ∀ {thread}, InSet sizes other thread →
      ¬ InSet sizes core thread :=
    fun mine theirs => apart (mine.unique theirs)
  have runs := changes.runs_away apart
  have occupies : next.base.coreThread other =
      scheduler.base.coreThread other := by
    rw [changes.effect.occupant, update_of_ne apart]
  have places := changes.placed_away apart
  have queue := changes.queue other apart
  have view : ∀ {thread}, InSet sizes other thread →
      next.base.view thread = scheduler.base.view thread :=
    fun mine => changes.view_outside (outside mine)
  have born : ∀ {thread}, InSet sizes other thread →
      (thread < next.base.numThreads ↔
        thread < scheduler.base.numThreads) :=
    fun mine => changes.born _ (outside mine)
  have unborn : ∀ {thread}, InSet sizes other thread →
      (next.base.numThreads ≤ thread ↔
        scheduler.base.numThreads ≤ thread) :=
    fun mine => not_lt.symm.trans ((not_congr (born mine)).trans not_lt)
  refine ⟨⟨?_, queue ▸ inv.queued.sorted, queue ▸ inv.queued.nodup⟩, ?_⟩
  · intro thread
    rw [queue, inv.queued.queue]
    exact and_congr_right fun mine => by rw [view mine]
  · rcases inv.lane with untouched | ⟨front, phase, ahead⟩
    · refine .inl ⟨runs.trans untouched.running,
        occupies.trans untouched.occupant,
        (changes.turn other apart).trans untouched.next, ?_,
        places.trans untouched.placed⟩
      exact fun thread mine =>
        (unborn mine).mpr (untouched.nobody thread mine)
    · refine .inr ⟨front, phase, ahead.member,
        (born ahead.member).mpr ahead.born, runs.trans ahead.running,
        occupies.trans ahead.occupant,
        (view ahead.member).trans ahead.view,
        (changes.turn other apart).trans ahead.next, ahead.first, ?_, ?_,
        places.trans ahead.placed⟩
      · intro thread mine before
        rw [view mine]
        exact ahead.earlier thread mine before
      · intro thread mine behind created
        rw [view mine]
        exact ahead.later thread mine behind ((born mine).mp created)

/-- Neither before nor after the event does the thread wait. -/
theorem Queued.keep (queued : Queued sizes scheduler core)
    (queue : next.coreWaitingThreads core = scheduler.coreWaitingThreads core)
    (others : ∀ other, other ≠ thread →
      next.base.view other = scheduler.base.view other)
    (was : scheduler.base.view thread ≠ .waiting)
    (now : next.base.view thread ≠ .waiting) :
    Queued sizes next core := by
  refine ⟨?_, queue ▸ queued.sorted, queue ▸ queued.nodup⟩
  intro other
  rw [queue, queued.queue]
  by_cases same : other = thread
  · rw [same]
    exact ⟨fun both => absurd both.2 was, fun both => absurd both.2 now⟩
  · rw [others other same]

/-- The first thread of a set is placed on its core. -/
theorem CoreInv.arrive (inv : CoreInv sizes scheduler core)
    (mine : InSet sizes core scheduler.base.numThreads)
    (gone : scheduler.base.view scheduler.base.numThreads = .gone)
    (free : scheduler.base.coreThreadRunning core = none)
    (changes : Changes sizes scheduler next core
      (some scheduler.base.numThreads) (some scheduler.base.numThreads)
      (update scheduler.base.view scheduler.base.numThreads
        (.arriving core))
      [⟨scheduler.base.numThreads, core, true⟩])
    (count : next.base.numThreads = scheduler.base.numThreads + 1)
    (turn : next.nextThreadToExecute core =
      scheduler.nextThreadToExecute core)
    (queue : next.coreWaitingThreads core =
      scheduler.coreWaitingThreads core) :
    CoreInv sizes next core := by
  obtain ⟨view, others⟩ := changes.views_update
  rcases inv.lane with untouched | ⟨front, phase, ahead⟩
  · have first : scheduler.base.numThreads = nextTte sizes core := by
      have inside : InSet sizes core (nextTte sizes core) :=
        ⟨Nat.le_refl _, mine.1.trans_lt mine.2⟩
      exact Nat.le_antisymm (untouched.nobody _ inside) mine.1
    refine ⟨inv.queued.keep queue others ?_ ?_,
      .inr ⟨scheduler.base.numThreads, .arriving, mine, ?_, ?_, ?_, view, ?_,
        fun _ => first, ?_, ?_, ?_⟩⟩
    · rw [gone]
      exact fun same => by cases congrArg View.status same
    · rw [view]
      exact fun same => by cases congrArg View.status same
    · exact count ▸ Nat.lt_succ_self _
    · rw [changes.effect.running, update_self]
    · rw [changes.effect.occupant, update_self]
      rfl
    · rw [turn, untouched.next, first]
      rfl
    · intro other inside before
      exact absurd inside.1 (Nat.not_le.mpr (first ▸ before))
    · intro other _ behind born
      exact absurd behind (Nat.not_lt.mpr
        (Nat.lt_succ_iff.mp (born.trans_eq count)))
    · rw [changes.placed_here, untouched.placed, first,
        Nat.add_sub_cancel_left]
      rfl
  · exact absurd (free.symm.trans ahead.running) (by simp)

/-- A later thread of a set is created. -/
theorem CoreInv.create (inv : CoreInv sizes scheduler core)
    (gone : scheduler.base.view scheduler.base.numThreads = .gone)
    (taken : scheduler.base.coreThreadRunning core ≠ none)
    (changes : Changes sizes scheduler next core
      (scheduler.base.coreThreadRunning core) (scheduler.base.coreThread core)
      (update scheduler.base.view scheduler.base.numThreads .created)
      [])
    (count : next.base.numThreads = scheduler.base.numThreads + 1)
    (turn : next.nextThreadToExecute core =
      scheduler.nextThreadToExecute core)
    (queue : next.coreWaitingThreads core =
      scheduler.coreWaitingThreads core) :
    CoreInv sizes next core := by
  obtain ⟨view, others⟩ := changes.views_update
  rcases inv.lane with untouched | ⟨front, phase, ahead⟩
  · exact absurd untouched.running taken
  · refine ⟨inv.queued.keep queue others ?_ ?_,
      .inr ⟨front, phase, ahead.member, ?_, ?_, ?_, ?_, ?_, ahead.first, ?_, ?_,
        ?_⟩⟩
    · rw [gone]
      exact fun same => by cases congrArg View.status same
    · rw [view]
      exact fun same => by cases congrArg View.status same
    · exact count ▸ ahead.born.trans (Nat.lt_succ_self _)
    · rw [changes.effect.running, update_self, ahead.running]
    · rw [changes.effect.occupant, update_self, ahead.occupant]
    · rw [others front ahead.born.ne, ahead.view]
    · rw [turn, ahead.next]
    · intro other inside before
      rw [others other (before.trans ahead.born).ne]
      exact ahead.earlier other inside before
    · intro other inside behind born
      rcases Nat.lt_succ_iff_lt_or_eq.mp (born.trans_eq count) with
        older | rfl
      · rw [others other older.ne]
        exact ahead.later other inside behind older
      · exact .inl view
    · rw [changes.placed_here, ahead.placed]
      simp

/-- The thread in front moves on to another phase. -/
theorem CoreInv.advance (inv : CoreInv sizes scheduler core)
    (after : Phase) {before : Phase} (ahead : Front sizes scheduler core front before)
    (changes : Changes sizes scheduler next core
      (scheduler.base.coreThreadRunning core) occupant
      (update scheduler.base.view front (after.view core)) [])
    (occupies : occupant = after.occupant front)
    (count : next.base.numThreads = scheduler.base.numThreads)
    (turn : next.nextThreadToExecute core = front + 1)
    (gone : after ≠ .arriving)
    (queue : next.coreWaitingThreads core =
      scheduler.coreWaitingThreads core) :
    CoreInv sizes next core ∧ Front sizes next core front after := by
  obtain ⟨view, others⟩ := changes.views_update
  have active : ∀ phase : Phase, phase.view core ≠ .waiting := by
    intro phase same
    cases phase with
    | arriving => cases congrArg View.status same
    | executing => cases congrArg View.status same
    | lingering => cases congrArg View.status same
  have born : front < next.base.numThreads := count ▸ ahead.born
  have ahead' : Front sizes next core front after := by
    refine ⟨ahead.member, born, ?_, ?_, view, ?_,
      fun arriving => absurd arriving gone, ?_, ?_, ?_⟩
    · rw [changes.effect.running, update_self, ahead.running]
    · rw [changes.effect.occupant, update_self, occupies]
    · rw [turn, if_neg gone]
    · intro other inside earlier
      rw [others other earlier.ne]
      exact ahead.earlier other inside earlier
    · intro other inside behind created
      rw [others other behind.ne']
      exact ahead.later other inside behind (count ▸ created)
    · rw [changes.placed_here, ahead.placed]
      simp
  refine ⟨⟨inv.queued.keep queue others ?_ ?_, .inr ⟨_, _, ahead'⟩⟩, ahead'⟩
  · exact ahead.view ▸ active before
  · exact view ▸ active after

/-- A thread that starts behind another one is queued. -/
theorem CoreInv.push (inv : CoreInv sizes scheduler core) {phase : Phase}
    (ahead : Front sizes scheduler core front phase)
    (mine : InSet sizes core thread) (behind : front < thread)
    (created : scheduler.base.view thread = .created)
    (changes : Changes sizes scheduler next core
      (scheduler.base.coreThreadRunning core) (scheduler.base.coreThread core)
      (update scheduler.base.view thread .waiting) [])
    (count : next.base.numThreads = scheduler.base.numThreads)
    (turn : next.nextThreadToExecute core =
      scheduler.nextThreadToExecute core)
    (queue : next.coreWaitingThreads core =
      (scheduler.coreWaitingThreads core).orderedInsert (· ≤ ·) thread) :
    CoreInv sizes next core := by
  obtain ⟨view, others⟩ := changes.views_update
  have absent : thread ∉ scheduler.coreWaitingThreads core := by
    intro member
    have waiting := ((inv.queued.queue thread).mp member).2
    rw [created] at waiting
    cases congrArg View.status waiting
  refine ⟨⟨?_, ?_, ?_⟩, .inr ⟨front, phase, ahead.member,
    count ▸ ahead.born, ?_, ?_, ?_, ?_, ahead.first, ?_, ?_, ?_⟩⟩
  · intro other
    rw [queue, List.mem_orderedInsert, inv.queued.queue]
    by_cases same : other = thread
    · rw [same, view]
      exact ⟨fun _ => ⟨mine, rfl⟩, fun _ => .inl rfl⟩
    · rw [others other same]
      exact ⟨fun either => either.resolve_left same, .inr⟩
  · rw [queue]
    exact inv.queued.sorted.orderedInsert thread _
  · rw [queue, (List.perm_orderedInsert _ thread _).nodup_iff]
    exact List.nodup_cons.mpr ⟨absent, inv.queued.nodup⟩
  · rw [changes.effect.running, update_self, ahead.running]
  · rw [changes.effect.occupant, update_self, ahead.occupant]
  · rw [others front behind.ne, ahead.view]
  · rw [turn, ahead.next]
  · intro other inside earlier
    rw [others other (earlier.trans behind).ne]
    exact ahead.earlier other inside earlier
  · intro other inside later exists_
    by_cases same : other = thread
    · exact .inr (same ▸ view)
    · rw [others other same]
      exact ahead.later other inside later (count ▸ exists_)
  · rw [changes.placed_here, ahead.placed]
    simp

/-- The next thread is placed on the core of one that has exited. -/
theorem CoreInv.handOver (inv : CoreInv sizes scheduler core)
    {rest : List ThreadId}
    (ahead : Front sizes scheduler core front .lingering)
    (top : scheduler.coreWaitingThreads core = (front + 1) :: rest)
    (born : front + 1 < scheduler.base.numThreads)
    (changes : Changes sizes scheduler next core (some (front + 1))
      (some (front + 1))
      (update (update scheduler.base.view front .gone)
        (front + 1) (.executing core))
      [⟨front + 1, core, true⟩])
    (count : next.base.numThreads = scheduler.base.numThreads)
    (turn : next.nextThreadToExecute core = front + 2)
    (queue : next.coreWaitingThreads core = rest) :
    CoreInv sizes next core ∧
      Front sizes next core (front + 1) .executing := by
  have views := changes.effect.views
  have waits := (inv.queued.queue (front + 1)).mp (top ▸ List.mem_cons_self)
  have nodup := List.nodup_cons.mp (top ▸ inv.queued.nodup)
  have others : ∀ other, other ≠ front → other ≠ front + 1 →
      next.base.view other = scheduler.base.view other := by
    intro other apart away
    rw [views, update_of_ne away, update_of_ne apart]
  have old : next.base.view front = .gone := by
    rw [views, update_of_ne (Nat.lt_succ_self front).ne,
      update_self]
  have new : next.base.view (front + 1) = .executing core := by
    rw [views, update_self]
  have ahead' : Front sizes next core (front + 1) .executing := by
    refine ⟨waits.1, count ▸ born, ?_, ?_, new, turn, ?_, ?_, ?_, ?_⟩
    · rw [changes.effect.running, update_self]
    · rw [changes.effect.occupant, update_self]
      rfl
    · intro arriving
      cases arriving
    · intro other inside earlier
      rcases Nat.lt_succ_iff_lt_or_eq.mp earlier with before | rfl
      · rw [others other before.ne earlier.ne]
        exact ahead.earlier other inside before
      · exact old
    · intro other inside behind exists_
      rw [others other (Nat.lt_of_succ_lt behind).ne' behind.ne']
      exact ahead.later other inside (Nat.lt_of_succ_lt behind)
        (count ▸ exists_)
    · rw [changes.placed_here, ahead.placed, Nat.succ_sub
        (ahead.member.1.trans (Nat.le_succ front)), List.range'_1_concat,
        Nat.add_sub_cancel' (ahead.member.1.trans (Nat.le_succ front))]
      rfl
  refine ⟨⟨⟨?_, ?_, queue ▸ nodup.2⟩, .inr ⟨_, _, ahead'⟩⟩, ahead'⟩
  · intro other
    have member := inv.queued.queue other
    rw [top, List.mem_cons] at member
    rw [queue]
    by_cases same : other = front + 1
    · rw [same, new]
      refine ⟨fun again => absurd again nodup.1, fun both => ?_⟩
      cases congrArg View.status both.2
    by_cases earlier : other = front
    · have left : scheduler.base.view front ≠ .waiting := by
        rw [ahead.view]
        exact fun waiting => by cases congrArg View.status waiting
      rw [earlier, old]
      refine ⟨fun again => ?_, fun both => ?_⟩
      · exact absurd (member.mp (.inr (earlier ▸ again))).2 (earlier ▸ left)
      · cases congrArg View.status both.2
    · rw [others other earlier same, ← member]
      exact ⟨.inr, fun either => either.resolve_left same⟩
  · have sorted := inv.queued.sorted
    rw [top] at sorted
    exact queue ▸ (List.pairwise_cons.mp sorted).2

/-! ## The layout -/

theorem Layout.keep (layout : Layout sizes scheduler)
    (effect : scheduler.base.Effect next.base core running occupant views
      added)
    (count : next.base.numThreads = scheduler.base.numThreads)
    (current : next.currentPinballSet = scheduler.currentPinballSet)
    (seqs : next.seqs = scheduler.seqs)
    (unborn : ∀ thread, scheduler.base.numThreads ≤ thread →
      views thread = scheduler.base.view thread) :
    Layout sizes next := by
  refine ⟨?_, ?_, ?_, ?_, ?_, ?_, effect.unhurried layout.unhurried⟩
  · rw [count, current]
    exact layout.begun
  · rw [count, current]
    exact layout.room
  · rw [count, current, seqs]
    exact layout.seqs
  · intro thread born
    rw [count] at born
    obtain ⟨core, mine, pinned⟩ := layout.housed thread born
    exact ⟨core, mine, effect.pinned born pinned⟩
  · intro thread later
    rw [effect.fresh later]
    exact layout.fresh thread (count ▸ later)
  · intro thread later
    rw [count] at later
    rw [effect.views, unborn thread later]
    exact layout.unborn thread later

/-- The set whose turn it is has room for another thread. -/
theorem Layout.mine (layout : Layout sizes scheduler)
    (turn : scheduler.currentPinballSet = core.val)
    (filled : sizes core ≠ 0) :
    InSet sizes core scheduler.base.numThreads := by
  refine ⟨turn ▸ layout.begun, ?_⟩
  rcases layout.room with first | more
  · rw [first, turn, nextTte_succ]
    exact Nat.lt_add_of_pos_right (Nat.pos_of_ne_zero filled)
  · exact turn ▸ more

theorem Layout.create (layout : Layout sizes scheduler)
    (turn : scheduler.currentPinballSet = core.val)
    (filled : sizes core ≠ 0) {base : PinnedScheduler n} {view : View n}
    (count : base.numThreads = scheduler.base.numThreads + 1)
    (pinned : base.Pinned scheduler.base.numThreads core)
    (effect : scheduler.base.Effect base core running occupant
      (update scheduler.base.view scheduler.base.numThreads view)
      added) :
    Layout sizes { scheduler.counted core with base := base } := by
  have mine := layout.mine turn filled
  have left := layout.seqs core turn.le
  rw [max_eq_left mine.1] at left
  have below : scheduler.base.numThreads + 1 ≤ nextTte sizes (core.val + 1) :=
    mine.2
  have ended : scheduler.seqs core - 1 = 0 ↔
      scheduler.base.numThreads + 1 = nextTte sizes (core.val + 1) := by
    rw [left]
    omega
  refine ⟨?_, ?_, ?_, ?_, ?_, ?_, effect.unhurried layout.unhurried⟩
  · unfold counted
    dsimp only
    rw [count, turn]
    split
    next finished => exact (ended.mp finished).ge
    · exact mine.1.trans (Nat.le_succ _)
  · unfold counted
    dsimp only
    rw [count, turn]
    split
    next finished => exact .inl (ended.mp finished)
    next more =>
      exact .inr (lt_of_le_of_ne below fun same => more (ended.mpr same))
  · intro other after
    unfold counted at after ⊢
    dsimp only at after ⊢
    rw [count]
    by_cases same : other = core
    · subst same
      rw [update_self, left, max_eq_left (mine.1.trans
        (Nat.le_succ _))]
      omega
    · have later : core.val + 1 ≤ other.val := by
        have apart : core.val ≠ other.val :=
          fun equal => same (Fin.ext equal).symm
        rw [turn] at after
        split at after
        · exact after
        · exact lt_of_le_of_ne after apart
      have above := below.trans (nextTte_le sizes later)
      rw [update_of_ne same, max_eq_right above,
        layout.seqs other (turn.le.trans (Nat.le_of_succ_le later)),
        max_eq_right ((Nat.le_succ _).trans above)]
  · intro thread born
    dsimp only at born ⊢
    rcases Nat.lt_succ_iff_lt_or_eq.mp (born.trans_eq count) with older | rfl
    · obtain ⟨core, mine, kept⟩ := layout.housed thread older
      exact ⟨core, mine, effect.pinned older kept⟩
    · exact ⟨core, mine, pinned⟩
  · intro thread later
    dsimp only at later ⊢
    rw [effect.fresh later]
    exact layout.fresh thread ((Nat.le_succ _).trans (count.ge.trans later))
  · intro thread later
    have newer := count.ge.trans later
    dsimp only
    rw [effect.views, update_of_ne (Nat.ne_of_gt newer)]
    exact layout.unborn thread ((Nat.le_succ _).trans newer)

end SchedulerSequential

end ChipletSniper.Threads
