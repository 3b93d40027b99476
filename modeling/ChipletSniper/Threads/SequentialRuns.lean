import ChipletSniper.Threads.SequentialOrder

/-!
# Runs of the sequential scheduler

Every event keeps the order of the sets. Whoever exits after the next thread
of the set has started hands the core over to it.
-/

namespace ChipletSniper.Threads

open Function

namespace SchedulerSequential

variable {n : Nat} {sizes : Fin n → Nat}
variable {scheduler next : SchedulerSequential n} {core other : Fin n}
variable {thread front : ThreadId} {phase : Phase}
variable {running occupant : Option ThreadId} {views : ThreadId → View n}
variable {added : List (Placement n)}

/-! ## Events -/

/-- Where a thread stands, among those of its set. -/
theorem Inv.locate (inv : Inv sizes scheduler)
    (born : thread < scheduler.base.numThreads) :
    ∃ core front phase, InSet sizes core thread ∧
      scheduler.base.Pinned thread core ∧
      Front sizes scheduler core front phase ∧
      (thread < front ∧ scheduler.base.view thread = .gone ∨
        thread = front ∧ scheduler.base.view thread = phase.view core ∨
        front < thread ∧ (scheduler.base.view thread = .created ∨
          scheduler.base.view thread = .waiting)) := by
  obtain ⟨core, mine, pinned⟩ := inv.layout.housed thread born
  rcases (inv.cores core).lane with untouched | ⟨front, phase, ahead⟩
  · exact absurd born (Nat.not_lt.mpr (untouched.nobody thread mine))
  · refine ⟨core, front, phase, mine, pinned, ahead, ?_⟩
    rcases Nat.lt_trichotomy thread front with before | same | after
    · exact .inl ⟨before, ahead.earlier thread mine before⟩
    · exact .inr (.inl ⟨same, same ▸ ahead.view⟩)
    · exact .inr (.inr ⟨after, ahead.later thread mine after born⟩)

theorem Inv.born_of_status (inv : Inv sizes scheduler)
    (active : scheduler.base.status thread ≠ .idle) :
    thread < scheduler.base.numThreads := by
  by_contra later
  exact active (congrArg View.status
    (inv.layout.unborn thread (Nat.le_of_not_lt later)))

theorem Inv.of_changes (inv : Inv sizes scheduler)
    (changes : Changes sizes scheduler next core running occupant views added)
    (here : CoreInv sizes next core) (layout : Layout sizes next) :
    Inv sizes next := by
  refine ⟨fun other => ?_, layout⟩
  by_cases same : other = core
  · exact same ▸ here
  · exact changes.away same (inv.cores other)

/-- Whether the other cores were handed over is as before. -/
theorem Inv.handed (inv : Inv sizes scheduler)
    (runs : ∀ other, other ≠ core → next.base.coreThreadRunning other =
      scheduler.base.coreThreadRunning other)
    (views : ∀ thread, ¬ InSet sizes core thread →
      next.base.view thread = scheduler.base.view thread)
    (handed : Handed sizes scheduler)
    (here : ∀ front, next.base.coreThreadRunning core = some front →
      next.base.status front = .idle → ¬ InSet sizes core (front + 1)) :
    Handed sizes next := by
  intro other front running idle
  by_cases same : other = core
  · subst same
    exact here front running idle
  · rw [runs other same] at running
    refine handed other front running ?_
    rcases (inv.cores other).lane with untouched | ⟨ahead, phase, front⟩
    · rw [untouched.running] at running
      cases running
    · obtain rfl := Option.some_inj.mp (front.running.symm.trans running)
      have away : ¬ InSet sizes core ahead :=
        fun mine => same (front.member.unique mine)
      exact (congrArg View.status (views ahead away)).symm.trans idle

theorem Changes.handed (changes : Changes sizes scheduler next core running
      occupant views added) (inv : Inv sizes scheduler)
    (handed : Handed sizes scheduler)
    (here : ∀ front, next.base.coreThreadRunning core = some front →
      next.base.status front = .idle → ¬ InSet sizes core (front + 1)) :
    Handed sizes next :=
  inv.handed (fun _ apart => changes.runs_away apart)
    (fun _ away => changes.view_outside away) handed here

/-- The set whose turn it is is not empty, and a thread only exits after the
next one of its set has started. -/
def InTurn (sizes : Fin n → Nat) (scheduler : SchedulerSequential n) :
    SequentialEvent → Prop
  | .create => ∀ inside : scheduler.currentPinballSet < n,
      sizes ⟨scheduler.currentPinballSet, inside⟩ ≠ 0
  | .start _ => True
  | .exit thread _ => ∀ core, InSet sizes core thread →
      InSet sizes core (thread + 1) → scheduler.base.Started (thread + 1)

theorem threadCreate_eq
    (fresh : (scheduler.base.threadInfo
      scheduler.base.numThreads).hasAffinity = false)
    (turn : scheduler.currentPinballSet = core.val)
    {base : PinnedScheduler n}
    (created : scheduler.base.createThread (fun other => other = core) =
      .ok base) :
    scheduler.threadCreate =
      .ok { scheduler.counted core with base := base } := by
  have inside : scheduler.currentPinballSet < n := turn ▸ core.isLt
  have chosen : (⟨scheduler.currentPinballSet, inside⟩ : Fin n) = core :=
    Fin.ext turn
  unfold threadCreate
  rw [if_neg (by rw [fresh]; decide), dif_pos inside, chosen]
  change (scheduler.base.createThread fun other => other = core).bind _ = _
  rw [created]
  rfl

theorem Inv.create (inv : Inv sizes scheduler)
    (turn : scheduler.currentPinballSet = core.val)
    (filled : sizes core ≠ 0) :
    ∃ next, scheduler.threadCreate = .ok next ∧ Inv sizes next ∧
      (Handed sizes scheduler → Handed sizes next) := by
  have gone := inv.layout.unborn _ le_rfl
  have fresh := inv.layout.fresh _ le_rfl
  have mine := inv.layout.mine turn filled
  have outside : ∀ {view : View n} thread, ¬ InSet sizes core thread →
      update scheduler.base.view scheduler.base.numThreads view
        thread = scheduler.base.view thread := by
    intro view thread away
    refine update_of_ne ?_ _ _
    rintro rfl
    exact away mine
  have born : ∀ {count : Nat}, count = scheduler.base.numThreads + 1 →
      ∀ thread, ¬ InSet sizes core thread →
        (thread < count ↔ thread < scheduler.base.numThreads) := by
    intro count same thread away
    rw [same]
    refine ⟨fun below => lt_of_le_of_ne (Nat.lt_succ_iff.mp below) ?_,
      Nat.lt_succ_of_lt⟩
    rintro rfl
    exact away mine
  rcases (inv.cores core).lane with untouched | ⟨front, phase, ahead⟩
  · obtain ⟨base, created, count, pinned, effect⟩ :=
      PinnedScheduler.createThread_free gone fresh untouched.running
        untouched.occupant
    have layout := inv.layout.create turn filled count pinned effect
    have changes : Changes sizes scheduler
        { scheduler.counted core with base := base } core _ _ _ _ :=
      ⟨effect, by simp, fun _ _ => rfl, fun _ _ => rfl, outside, born count⟩
    have here := (inv.cores core).arrive mine gone untouched.running changes
      count rfl rfl
    refine ⟨_, threadCreate_eq fresh turn created,
      inv.of_changes changes here layout, fun handed =>
        changes.handed inv handed fun front runs idle => ?_⟩
    rw [changes.effect.running, update_self] at runs
    obtain rfl := Option.some_inj.mp runs
    have arriving := congrArg View.status changes.views_update.1
    cases arriving.symm.trans idle
  · have taken : scheduler.base.coreThreadRunning core ≠ none := by
      rw [ahead.running]
      simp
    have created := PinnedScheduler.createThread_taken gone fresh
      ((PinnedScheduler.findFreeCore_pinned
        (scheduler.base.pinned_born core)).trans (if_neg taken))
    have effect := PinnedScheduler.effect_born core gone
      fun other => other = core
    have count : (scheduler.base.born fun other => other = core).numThreads =
        scheduler.base.numThreads + 1 := rfl
    have pinned := scheduler.base.pinned_born core
    generalize scheduler.base.born (fun other => other = core) = base
      at created effect count pinned
    have layout := inv.layout.create turn filled count pinned effect
    have changes : Changes sizes scheduler
        { scheduler.counted core with base := base } core _ _ _ _ :=
      ⟨effect, by simp, fun _ _ => rfl, fun _ _ => rfl, outside, born count⟩
    have here := (inv.cores core).create gone taken changes count rfl rfl
    refine ⟨_, threadCreate_eq fresh turn created,
      inv.of_changes changes here layout, fun handed =>
        changes.handed inv handed fun other runs idle => ?_⟩
    rw [changes.effect.running, update_self] at runs
    refine handed core other runs ?_
    obtain rfl := Option.some_inj.mp (ahead.running.symm.trans runs)
    have same := changes.views_update.2 front ahead.born.ne
    exact (congrArg View.status same).symm.trans idle

/-- An event of one thread changes its core. -/
theorem Changes.of_effect {view : View n} (mine : InSet sizes core thread)
    (effect : scheduler.base.Effect next.base core running occupant
      (update scheduler.base.view thread view) [])
    (count : next.base.numThreads = scheduler.base.numThreads)
    (turn : ∀ other, other ≠ core →
      next.nextThreadToExecute other = scheduler.nextThreadToExecute other)
    (queue : ∀ other, other ≠ core →
      next.coreWaitingThreads other = scheduler.coreWaitingThreads other) :
    Changes sizes scheduler next core running occupant
      (update scheduler.base.view thread view) [] := by
  refine ⟨effect, by simp, turn, queue, ?_, ?_⟩
  · intro other away
    refine update_of_ne ?_ _ _
    rintro rfl
    exact away mine
  · intro other _
    rw [count]

theorem Inv.start (inv : Inv sizes scheduler)
    (initializing : scheduler.base.status thread = .initializing) :
    ∃ next, scheduler.onThreadStart thread = .ok next ∧ Inv sizes next ∧
      (Handed sizes scheduler → Handed sizes next) := by
  have born : thread < scheduler.base.numThreads := by
    refine inv.born_of_status ?_
    rw [initializing]
    decide
  have status : ∀ {view : View n}, scheduler.base.view thread = view →
      view.status = .initializing :=
    fun same => (congrArg View.status same).symm.trans initializing
  have unborn : ∀ {view : View n} other, scheduler.base.numThreads ≤ other →
      update scheduler.base.view thread view other =
        scheduler.base.view other :=
    fun other later => update_of_ne (born.trans_le later).ne' _ _
  obtain ⟨core, front, phase, mine, pinned, ahead, place⟩ := inv.locate born
  rcases place with ⟨_, gone⟩ | ⟨rfl, view⟩ | ⟨behind, created | waiting⟩
  · cases status gone
  · obtain rfl : phase = .arriving := by
      cases phase with
      | arriving => rfl
      | executing => cases status view
      | lingering => cases status view
    obtain ⟨base, started, count, effect⟩ :=
      onThreadStart_front pinned ahead.running view
    refine ⟨_, started, ?_⟩
    have changes : Changes sizes scheduler
        { scheduler with
          base := base
          nextThreadToExecute := update
            scheduler.nextThreadToExecute core
            (scheduler.nextThreadToExecute core + 1) } core _ _ _ _ :=
      .of_effect mine effect count
        (fun other apart => update_of_ne apart _ _) fun _ _ => rfl
    have turn : scheduler.nextThreadToExecute core + 1 = thread + 1 :=
      congrArg (· + 1) ahead.next
    obtain ⟨here, front⟩ := (inv.cores core).advance .executing ahead changes
      ahead.occupant count
      ((update_self _ _ _).trans turn) (by decide) rfl
    refine ⟨inv.of_changes changes here
      (inv.layout.keep effect count rfl rfl unborn), fun handed =>
        changes.handed inv handed fun other runs idle => ?_⟩
    obtain rfl := Option.some_inj.mp (front.running.symm.trans runs)
    cases (congrArg View.status front.view).symm.trans idle
  · have apart : scheduler.base.coreThreadRunning core ≠ some thread := by
      rw [ahead.running]
      exact fun same => behind.ne (Option.some_inj.mp same)
    obtain ⟨base, started, count, effect⟩ :=
      onThreadStart_queued pinned apart created
    refine ⟨_, started, ?_⟩
    have changes : Changes sizes scheduler
        { scheduler with
          base := base
          coreWaitingThreads := update scheduler.coreWaitingThreads
            core ((scheduler.coreWaitingThreads core).orderedInsert (· ≤ ·)
              thread) } core _ _ _ _ :=
      .of_effect mine effect count (fun _ _ => rfl)
        fun other apart => update_of_ne apart _ _
    have here := (inv.cores core).push ahead mine behind created changes count
      rfl (update_self _ _ _)
    refine ⟨inv.of_changes changes here
      (inv.layout.keep effect count rfl rfl unborn), fun handed =>
        changes.handed inv handed fun other runs idle => ?_⟩
    rw [changes.effect.running, update_self] at runs
    refine handed core other runs ?_
    obtain rfl := Option.some_inj.mp (ahead.running.symm.trans runs)
    have same := changes.views_update.2 front behind.ne
    exact (congrArg View.status same).symm.trans idle
  · cases status waiting

/-- While the thread in front has exited, no thread of the set can run. -/
theorem Inv.quiet (inv : Inv sizes scheduler)
    (ahead : Front sizes scheduler core front .lingering)
    (able : (scheduler.base.threadInfo thread).affinity core = true) :
    scheduler.base.runnable thread = false := by
  have silent : ∀ {view : View n}, scheduler.base.view thread = view →
      scheduler.base.runnable thread = view.runnable :=
    congrArg View.runnable
  by_cases born : thread < scheduler.base.numThreads
  · obtain ⟨home, front', phase, mine, pinned, ahead', place⟩ :=
      inv.locate born
    rw [pinned, decide_eq_true_iff] at able
    subst able
    rcases place with ⟨_, gone⟩ | ⟨rfl, view⟩ | ⟨_, created | waiting⟩
    · exact silent gone
    · obtain rfl := Option.some_inj.mp (ahead.running.symm.trans ahead'.running)
      exact silent ahead.view
    · exact silent created
    · exact silent waiting
  · exact silent (inv.layout.unborn thread (Nat.le_of_not_lt born))

/-- The next thread takes over if it is at the top of the queue. -/
theorem Inv.allocate (inv : Inv sizes scheduler) {rest : List ThreadId}
    (ahead : Front sizes scheduler core front .lingering)
    (top : scheduler.coreWaitingThreads core = (front + 1) :: rest)
    (time : Time) :
    ∃ next, scheduler.allocateNext core time = .ok next ∧ Inv sizes next ∧
      (∀ other, other ≠ core →
        next.base.coreThreadRunning other =
          scheduler.base.coreThreadRunning other) ∧
      (∀ other, ¬ InSet sizes core other →
        next.base.view other = scheduler.base.view other) ∧
      Front sizes next core (front + 1) .executing := by
  have waits := ((inv.cores core).queued.queue (front + 1)).mp
    (top ▸ List.mem_cons_self)
  have born : front + 1 < scheduler.base.numThreads := by
    refine inv.born_of_status fun idle => ?_
    cases (congrArg View.status waits.2).symm.trans idle
  have pinned : scheduler.base.Pinned (front + 1) core := by
    obtain ⟨home, mine, pinned⟩ := inv.layout.housed _ born
    exact mine.unique waits.1 ▸ pinned
  obtain ⟨base, allocated, count, effect⟩ := allocateNext_handOver time top
    ahead.next ahead.running ahead.view ahead.occupant pinned waits.2
    inv.layout.unhurried born fun other able => inv.quiet ahead able
  have outside : ∀ other, ¬ InSet sizes core other →
      update (update scheduler.base.view front .gone)
        (front + 1) (.executing core) other = scheduler.base.view other := by
    intro other away
    have later : other ≠ front + 1 := by
      rintro rfl
      exact away waits.1
    have earlier : other ≠ front := by
      rintro rfl
      exact away ahead.member
    rw [update_of_ne later, update_of_ne earlier]
  refine ⟨_, allocated, ?_⟩
  have changes : Changes sizes scheduler
      { scheduler with
        base := base
        nextThreadToExecute := update
          scheduler.nextThreadToExecute core (front + 1 + 1)
        coreWaitingThreads :=
          update scheduler.coreWaitingThreads core rest }
      core _ _ _ _ :=
    ⟨effect, by simp, fun other apart => update_of_ne apart _ _,
      fun other apart => update_of_ne apart _ _, outside,
      fun _ _ => count ▸ .rfl⟩
  obtain ⟨here, front⟩ := (inv.cores core).handOver ahead top born changes
    count (update_self _ _ _) (update_self _ _ _)
  refine ⟨inv.of_changes changes here (inv.layout.keep effect count rfl rfl ?_),
    fun other apart => changes.runs_away apart,
    fun other away => changes.view_outside away, front⟩
  intro other later
  rw [update_of_ne (born.trans_le later).ne',
    update_of_ne (ahead.born.trans_le later).ne']

/-- A started thread that is next is at the top of the queue. -/
theorem Inv.top_of_started (inv : Inv sizes scheduler)
    (ahead : Front sizes scheduler core front phase)
    (active : phase.view core ≠ .waiting)
    (mine : InSet sizes core (front + 1))
    (started : scheduler.base.Started (front + 1)) :
    ∃ rest, scheduler.coreWaitingThreads core = (front + 1) :: rest := by
  have queued := (inv.cores core).queued
  have born : front + 1 < scheduler.base.numThreads := by
    refine inv.born_of_status fun idle => ?_
    rcases started with running | stalled
    · cases running.symm.trans idle
    · cases stalled.symm.trans idle
  have waits : scheduler.base.view (front + 1) = .waiting := by
    refine (ahead.later _ mine (Nat.lt_succ_self _) born).resolve_left ?_
    intro created
    have status := congrArg View.status created
    rcases started with running | stalled
    · cases running.symm.trans status
    · cases stalled.symm.trans status
  have member := (queued.queue (front + 1)).mpr ⟨mine, waits⟩
  have sorted := queued.sorted
  cases queue : scheduler.coreWaitingThreads core with
  | nil =>
      rw [queue] at member
      cases member
  | cons top rest =>
      rw [queue] at member sorted
      have least : top ≤ front + 1 := by
        rcases List.mem_cons.mp member with same | later
        · exact same.ge
        · exact (List.pairwise_cons.mp sorted).1 _ later
      have inside := (queued.queue top).mp (queue ▸ List.mem_cons_self)
      have behind : front < top := by
        by_contra before
        rcases Nat.lt_or_eq_of_le (Nat.le_of_not_lt before) with earlier | same
        · have gone := ahead.earlier top inside.1 earlier
          rw [inside.2] at gone
          cases congrArg View.status gone
        · exact active (ahead.view.symm.trans (same ▸ inside.2))
      exact ⟨rest, by rw [Nat.le_antisymm least behind]⟩

theorem Inv.exit (inv : Inv sizes scheduler)
    (running : scheduler.base.status thread = .running) (time : Time) :
    ∃ next, scheduler.onThreadExit thread time = .ok next ∧ Inv sizes next ∧
      (InTurn sizes scheduler (.exit thread time) → Handed sizes scheduler →
        Handed sizes next) := by
  have born : thread < scheduler.base.numThreads := by
    refine inv.born_of_status ?_
    rw [running]
    decide
  have status : ∀ {view : View n}, scheduler.base.view thread = view →
      view.status = .running :=
    fun same => (congrArg View.status same).symm.trans running
  obtain ⟨core, front, phase, mine, pinned, ahead, place⟩ := inv.locate born
  rcases place with ⟨_, gone⟩ | ⟨rfl, view⟩ | ⟨_, created | waiting⟩
  · cases status gone
  · obtain rfl : phase = .executing := by
      cases phase with
      | arriving => cases status view
      | executing => rfl
      | lingering => cases status view
    obtain ⟨base, exits, count, effect⟩ :=
      onThreadExit_eq time pinned view
    have changes : Changes sizes scheduler { scheduler with base := base }
        core _ _ _ _ :=
      .of_effect mine effect count (fun _ _ => rfl) fun _ _ => rfl
    obtain ⟨here, front⟩ := (inv.cores core).advance .lingering ahead changes
      rfl count ahead.next (by decide) rfl
    have unborn : ∀ other, scheduler.base.numThreads ≤ other →
        update scheduler.base.view thread (.lingering core) other =
          scheduler.base.view other :=
      fun other later => update_of_ne (born.trans_le later).ne' _ _
    have left := inv.of_changes changes here
      (inv.layout.keep effect count rfl rfl unborn)
    rw [exits]
    by_cases top : ∃ rest,
        scheduler.coreWaitingThreads core = (thread + 1) :: rest
    · obtain ⟨rest, top⟩ := top
      obtain ⟨next, allocated, kept, runs, views, executing⟩ :=
        left.allocate front top time
      refine ⟨next, allocated, kept, fun _ handed => inv.handed
        (fun other apart => (runs other apart).trans (changes.runs_away apart))
        (fun other away => (views other away).trans
          (changes.view_outside away)) handed fun other runs idle => ?_⟩
      obtain rfl := Option.some_inj.mp (executing.running.symm.trans runs)
      cases (congrArg View.status executing.view).symm.trans idle
    · refine ⟨_, allocateNext_stays fun rest queue => ?_, left,
        fun inTurn handed => changes.handed inv handed
          fun other runs _ next => ?_⟩
      · rw [front.next] at queue
        exact top ⟨rest, queue⟩
      · obtain rfl := Option.some_inj.mp (front.running.symm.trans runs)
        refine top (inv.top_of_started ahead ?_ next (inTurn core mine next))
        intro waiting
        cases congrArg View.status waiting
  · cases status created
  · cases status waiting

/-! ## Runs -/

theorem inv_initial (sizes : Fin n → Nat) : Inv sizes (initial sizes) := by
  have unborn : ∀ thread, (initial sizes).base.view thread = .gone :=
    fun _ => rfl
  refine ⟨fun core => ⟨⟨?_, .nil, .nil⟩, .inl ⟨rfl, rfl, rfl, ?_, rfl⟩⟩, ?_⟩
  · intro thread
    refine ⟨fun member => ?_, fun both => ?_⟩
    · cases member
    · rw [unborn] at both
      cases congrArg View.status both.2
  · exact fun thread _ => Nat.zero_le thread
  · refine ⟨Nat.le_refl _, .inl rfl, ?_, ?_, fun _ _ => rfl,
      fun thread _ => unborn thread, fun _ => rfl⟩
    · intro core _
      change ((sizes core : Nat) : Int) = nextTte sizes (core.val + 1) -
        (max 0 (nextTte sizes core) : Nat)
      rw [Nat.max_eq_right (Nat.zero_le _), nextTte_succ]
      omega
    · intro thread born
      cases born

theorem Inv.step (inv : Inv sizes scheduler) {event : SequentialEvent}
    (inTurn : InTurn sizes scheduler event)
    (stepped : scheduler.step event = .ok next) :
    Inv sizes next ∧ (Handed sizes scheduler → Handed sizes next) := by
  unfold SchedulerSequential.step at stepped
  cases event with
  | create =>
      dsimp only at stepped
      by_cases inside : scheduler.currentPinballSet < n
      · let core : Fin n := ⟨scheduler.currentPinballSet, inside⟩
        have turn : scheduler.currentPinballSet = core.val := rfl
        obtain ⟨created, run, kept⟩ := inv.create turn (inTurn inside)
        obtain rfl := Except.ok.inj (run.symm.trans stepped)
        exact kept
      · have fresh := inv.layout.fresh _ le_rfl
        unfold threadCreate at stepped
        rw [if_neg (by rw [fresh]; decide), dif_neg inside] at stepped
        cases stepped
  | start thread =>
      dsimp only at stepped
      split at stepped
      next initializing =>
        obtain ⟨started, run, kept⟩ := inv.start initializing
        obtain rfl := Except.ok.inj (run.symm.trans stepped)
        exact kept
      · cases stepped
  | exit thread time =>
      dsimp only at stepped
      split at stepped
      next able =>
        obtain ⟨exited, run, kept, handed⟩ := inv.exit able.1 time
        obtain rfl := Except.ok.inj (run.symm.trans stepped)
        exact ⟨kept, handed inTurn⟩
      · cases stepped

/-- The states of the runs in which every event is in turn. -/
inductive Reached (sizes : Fin n → Nat) : SchedulerSequential n → Prop where
  | initial : Reached sizes (initial sizes)
  | step {scheduler next : SchedulerSequential n} {event : SequentialEvent} :
      Reached sizes scheduler → InTurn sizes scheduler event →
        scheduler.step event = .ok next → Reached sizes next

theorem Reached.inv (reached : Reached sizes scheduler) :
    Inv sizes scheduler ∧ Handed sizes scheduler := by
  induction reached with
  | initial =>
      refine ⟨inv_initial sizes, fun core front runs => ?_⟩
      cases runs
  | step _ inTurn stepped ih =>
      obtain ⟨inv, handed⟩ := ih
      obtain ⟨kept, still⟩ := inv.step inTurn stepped
      exact ⟨kept, still handed⟩

/-- No event of such a run fails: while a set is left a thread can be created,
a created thread can start and a running one can exit. -/
theorem Reached.succeeds (reached : Reached sizes scheduler) :
    (∀ core : Fin n, scheduler.currentPinballSet = core.val →
      sizes core ≠ 0 → ∃ next, scheduler.step .create = .ok next) ∧
    (∀ thread, scheduler.base.status thread = .initializing →
      ∃ next, scheduler.step (.start thread) = .ok next) ∧
    ∀ thread time, scheduler.base.status thread = .running →
      scheduler.base.threadCore thread ≠ none →
      ∃ next, scheduler.step (.exit thread time) = .ok next := by
  have inv := reached.inv.1
  refine ⟨fun core turn filled => ?_, fun thread initializing => ?_,
    fun thread time running placed => ?_⟩
  · obtain ⟨next, created, _⟩ := inv.create turn filled
    exact ⟨next, created⟩
  · obtain ⟨next, started, _⟩ := inv.start initializing
    exact ⟨next, (if_pos initializing).trans started⟩
  · obtain ⟨next, exited, _⟩ := inv.exit running time
    exact ⟨next, (if_pos ⟨running, placed⟩).trans exited⟩

/-! ## One after the other -/

/-- The thread runs on the core. -/
def Executes (base : PinnedScheduler n) (thread : ThreadId) (core : Fin n) :
    Prop :=
  base.status thread = .running ∧ base.threadCore thread = some core

def Exited (base : PinnedScheduler n) (thread : ThreadId) : Prop :=
  thread < base.numThreads ∧ base.status thread = .idle

/-- The thread was made runnable and has the core. -/
structure Scheduled (base : PinnedScheduler n) (thread : ThreadId)
    (core : Fin n) : Prop where
  runnable : base.runnable thread = true
  running : base.coreThreadRunning core = some thread
  coreRunning : (base.threadInfo thread).coreRunning = some core
  executes : Executes base thread core

/-- Every set is executed one thread at a time, in the order of the numbers,
and a thread whose turn it is has the core. -/
structure Sequential (sizes : Fin n → Nat)
    (scheduler : SchedulerSequential n) : Prop where
  order : ∀ core, ∃ count ≤ sizes core,
    placed scheduler.base core = List.range' (nextTte sizes core) count
  alone : ∀ {core thread other}, Executes scheduler.base thread core →
    Executes scheduler.base other core → thread = other
  earlier : ∀ {core thread}, Executes scheduler.base thread core →
    InSet sizes core thread ∧
      (placed scheduler.base core).getLast? = some thread ∧
      ∀ other, InSet sizes core other → other < thread →
        Exited scheduler.base other
  progress : ∀ {core thread}, InSet sizes core thread →
    scheduler.base.Started thread →
    (∀ other, InSet sizes core other → other < thread →
      Exited scheduler.base other) →
    Scheduled scheduler.base thread core

/-- A thread that executes is in front. -/
theorem Inv.front_of_executes (inv : Inv sizes scheduler)
    (executes : Executes scheduler.base thread core) :
    Front sizes scheduler core thread .executing := by
  have born : thread < scheduler.base.numThreads := by
    refine inv.born_of_status ?_
    rw [executes.1]
    decide
  have status : ∀ {view : View n}, scheduler.base.view thread = view →
      view.status = .running :=
    fun same => (congrArg View.status same).symm.trans executes.1
  obtain ⟨home, front, phase, mine, pinned, ahead, place⟩ := inv.locate born
  rcases place with ⟨_, gone⟩ | ⟨rfl, view⟩ | ⟨_, created | waiting⟩
  · cases status gone
  · obtain rfl : phase = .executing := by
      cases phase with
      | arriving => cases status view
      | executing => rfl
      | lingering => cases status view
    have same := (congrArg View.threadCore view).symm.trans executes.2
    exact Option.some_inj.mp same ▸ ahead
  · cases status created
  · cases status waiting

theorem Inv.order (inv : Inv sizes scheduler) (core : Fin n) :
    ∃ count ≤ sizes core,
      placed scheduler.base core =
        List.range' (nextTte sizes core) count := by
  rcases (inv.cores core).lane with untouched | ⟨front, phase, ahead⟩
  · exact ⟨0, Nat.zero_le _, untouched.placed⟩
  · refine ⟨_, ?_, ahead.placed⟩
    have last := Nat.succ_le_of_lt ahead.member.2
    rw [nextTte_succ] at last
    exact Nat.sub_le_iff_le_add'.mpr last

theorem Inv.progress (inv : Inv sizes scheduler)
    (handed : Handed sizes scheduler) (mine : InSet sizes core thread)
    (started : scheduler.base.Started thread)
    (exited : ∀ other, InSet sizes core other → other < thread →
      Exited scheduler.base other) :
    Scheduled scheduler.base thread core := by
  have born : thread < scheduler.base.numThreads := by
    refine inv.born_of_status fun idle => ?_
    rcases started with running | stalled
    · cases running.symm.trans idle
    · cases stalled.symm.trans idle
  have status : ∀ {view : View n}, scheduler.base.view thread = view →
      view.status = .running ∨ view.status = .stalled := by
    intro view same
    rw [← same]
    exact started
  obtain ⟨home, front, phase, housed, _, ahead, place⟩ := inv.locate born
  obtain rfl := housed.unique mine
  rcases place with ⟨_, gone⟩ | ⟨rfl, view⟩ | ⟨behind, _⟩
  · rcases status gone with impossible | impossible
    · cases impossible
    · cases impossible
  · obtain rfl : phase = .executing := by
      cases phase with
      | executing => rfl
      | arriving => rcases status view with same | same <;> cases same
      | lingering => rcases status view with same | same <;> cases same
    exact ⟨congrArg View.runnable view, ahead.running,
      congrArg View.coreRunning view, congrArg View.status view,
      congrArg View.threadCore view⟩
  · refine absurd ?_ (handed home front ahead.running
      (exited front ahead.member behind).2)
    exact ⟨ahead.member.1.trans (Nat.le_succ front),
      (Nat.succ_le_of_lt behind).trans_lt mine.2⟩

/-- In every state of a run whose events are in turn the sets are executed in
order, and no thread whose turn it is is left behind. -/
theorem sequential_of_reached (reached : Reached sizes scheduler) :
    Sequential sizes scheduler := by
  obtain ⟨inv, handed⟩ := reached.inv
  refine ⟨inv.order, ?_, ?_, inv.progress handed⟩
  · intro core thread other first second
    exact Option.some_inj.mp ((inv.front_of_executes first).running.symm.trans
      (inv.front_of_executes second).running)
  · intro core thread executes
    have ahead := inv.front_of_executes executes
    refine ⟨ahead.member, ?_, ?_⟩
    · rw [ahead.placed, Nat.succ_sub ahead.member.1, List.range'_1_concat,
        List.getLast?_concat, Nat.add_sub_cancel' ahead.member.1]
    · intro other inside before
      exact ⟨before.trans ahead.born,
        congrArg View.status (ahead.earlier other inside before)⟩

/-- Two threads, and the second one starts before the first exits. -/
theorem sequential_of_reached_handOver :
    ∃ scheduler, [SequentialEvent.create, .create, .start 0, .start 1,
        .exit 0 0].foldlM step (initial fun _ : Fin 1 => 2) =
          .ok scheduler ∧
      Sequential (fun _ => 2) scheduler := by
  have creates : ∀ {scheduler : SchedulerSequential 1},
      InTurn (fun _ => 2) scheduler .create :=
    fun _ => Nat.succ_ne_zero 1
  have starts : ∀ {scheduler : SchedulerSequential 1} (thread : ThreadId),
      InTurn (fun _ => 2) scheduler (.start thread) :=
    fun _ => trivial
  have exits : ∀ {scheduler : SchedulerSequential 1},
      scheduler.base.Started 1 → InTurn (fun _ => 2) scheduler (.exit 0 0) :=
    fun started _ _ _ => started
  have created : Reached (fun _ => 2) _ :=
    .step (.step .initial creates rfl) creates rfl
  have started : Reached (fun _ => 2) _ :=
    .step (.step created (starts 0) rfl) (starts 1) rfl
  exact ⟨_, rfl, sequential_of_reached (.step started (exits (.inr rfl)) rfl)⟩

/-- A thread exits before the next one of its set starts, which then never
runs. Or the set whose turn it is is empty, and its core takes a thread of
another set. -/
theorem exit_strands_next :
    (∃ scheduler, [SequentialEvent.create, .create, .start 0, .exit 0 0,
        .start 1].foldlM step (initial fun _ : Fin 1 => 2) =
          .ok scheduler ∧
      ¬ Sequential (fun _ => 2) scheduler) ∧
    ∃ scheduler, [SequentialEvent.create, .start 0].foldlM step
        (initial fun core : Fin 2 => core.val) = .ok scheduler ∧
      ¬ Sequential (fun core => core.val) scheduler := by
  refine ⟨⟨_, rfl, fun sequential => ?_⟩, ⟨_, rfl, fun sequential => ?_⟩⟩
  · have mine : InSet (fun _ : Fin 1 => 2) 0 1 := by decide
    have scheduled := sequential.progress mine (.inr rfl)
      fun other _ before =>
        (Nat.lt_one_iff.mp before).symm ▸ ⟨by decide, rfl⟩
    exact absurd scheduled.runnable (by decide)
  · have mine : InSet (fun core : Fin 2 => core.val) 1 0 := by decide
    have scheduled := sequential.progress mine (.inl rfl)
      fun other _ before => absurd before (Nat.not_lt_zero other)
    exact absurd scheduled.running (by decide)

end SchedulerSequential

end ChipletSniper.Threads
