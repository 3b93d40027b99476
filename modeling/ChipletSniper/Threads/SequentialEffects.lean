import ChipletSniper.Threads.IdleCores
import ChipletSniper.Threads.SchedulerSequential

/-!
# What the events of the sequential scheduler change

What the scheduler knows about a thread is its view. Every event changes the
views of the threads of one set, and what one core is given to.
-/

namespace ChipletSniper.Threads

open Function

/-- What the scheduler and the thread manager know about a thread. -/
@[ext] structure View (n : Nat) where
  status : CoreState
  runnable : Bool
  coreRunning : Option (Fin n)
  threadCore : Option (Fin n)

namespace View

variable {n : Nat}

/-- Before a thread is created and after its core was handed over. -/
def gone : View n :=
  ⟨.idle, false, none, none⟩

def created : View n :=
  ⟨.initializing, false, none, none⟩

def waiting : View n :=
  ⟨.stalled, false, none, none⟩

/-- Created on a core that was free. -/
def arriving (core : Fin n) : View n :=
  ⟨.initializing, false, some core, some core⟩

def executing (core : Fin n) : View n :=
  ⟨.running, true, some core, some core⟩

/-- Exited, and the core was not handed over. -/
def lingering (core : Fin n) : View n :=
  ⟨.idle, false, some core, none⟩

end View

namespace PinnedScheduler

variable {n : Nat} {scheduler next : PinnedScheduler n} {core : Fin n}
variable {thread : ThreadId} {time : Time}

def view (scheduler : PinnedScheduler n) (thread : ThreadId) : View n where
  status := scheduler.status thread
  runnable := scheduler.runnable thread
  coreRunning := (scheduler.threadInfo thread).coreRunning
  threadCore := scheduler.threadCore thread

/-- The thread may only run on the core. -/
def Pinned (scheduler : PinnedScheduler n) (thread : ThreadId)
    (core : Fin n) : Prop :=
  ∀ other, (scheduler.threadInfo thread).affinity other =
    decide (other = core)

/-- Threads have only ever stalled for a core. -/
def Unhurried (scheduler : PinnedScheduler n) : Prop :=
  ∀ thread, (scheduler.threads.state thread).stalledReason = .unscheduled

/-- What changes with one core. -/
structure Effect (scheduler next : PinnedScheduler n) (core : Fin n)
    (running occupant : Option ThreadId) (views : ThreadId → View n)
    (added : List (Placement n)) : Prop where
  running : next.coreThreadRunning =
    update scheduler.coreThreadRunning core running
  occupant : next.coreThread =
    update scheduler.coreThread core occupant
  views : next.view = views
  placements : next.placements = scheduler.placements ++ added
  pinned : ∀ {thread other}, thread < scheduler.numThreads →
    scheduler.Pinned thread other → next.Pinned thread other
  fresh : ∀ {thread}, next.numThreads ≤ thread →
    (next.threadInfo thread).hasAffinity =
      (scheduler.threadInfo thread).hasAffinity
  unhurried : scheduler.Unhurried → next.Unhurried

/-- An update that keeps a part of an entry keeps that part everywhere. -/
theorem update_part {Entry Part : Type*} {entries : ThreadId → Entry}
    {entry : Entry} (part : Entry → Part)
    (same : part entry = part (entries thread)) (other : ThreadId) :
    part (update entries thread entry other) =
      part (entries other) := by
  by_cases here : other = thread
  · rw [here, update_self, same]
  · rw [update_of_ne here]

/-- Only the state of the threads changes. -/
theorem Effect.of_threads
    (running : next.coreThreadRunning = scheduler.coreThreadRunning)
    (occupant : next.coreThread = scheduler.coreThread)
    (infos : next.threadInfo = scheduler.threadInfo)
    (placements : next.placements = scheduler.placements)
    (unhurried : scheduler.Unhurried → next.Unhurried) :
    Effect scheduler next core (scheduler.coreThreadRunning core)
      (scheduler.coreThread core) next.view [] := by
  refine ⟨?_, ?_, rfl, ?_, ?_, ?_, unhurried⟩
  · rw [running, update_eq_self]
  · rw [occupant, update_eq_self]
  · rw [placements, List.append_nil]
  · intro thread other _ pinned place
    rw [infos]
    exact pinned place
  · intro thread _
    rw [infos]

theorem findFreeCore_pinned (pinned : scheduler.Pinned thread core) :
    scheduler.findFreeCoreForThread thread =
      if scheduler.coreThreadRunning core = none then some core else none := by
  cases found : scheduler.findFreeCoreForThread thread with
  | none =>
      have busy := List.find?_eq_none.mp found core (List.mem_finRange core)
      rw [if_neg]
      intro free
      apply busy
      rw [pinned, free]
      simp
  | some other =>
      have fits := List.find?_some found
      rw [pinned, Bool.and_eq_true, decide_eq_true_iff,
        Option.isNone_iff_eq_none] at fits
      rw [← fits.1, if_pos fits.2]

theorem setStatus_view (scheduler : PinnedScheduler n) (thread : ThreadId)
    (status : CoreState) :
    (scheduler.setStatus thread status).view =
      update scheduler.view thread
        { scheduler.view thread with status := status } := by
  funext other
  by_cases same : other = thread
  · subst same
    simp [view, PinnedScheduler.status, setStatus, ThreadManager.setState]
  · simp [view, PinnedScheduler.status, setStatus, ThreadManager.setState,
      same]

theorem Unhurried.setStatus (unhurried : scheduler.Unhurried)
    (thread : ThreadId) (status : CoreState) :
    (scheduler.setStatus thread status).Unhurried := by
  intro other
  refine (update_part ThreadState.stalledReason ?_ other).trans
    (unhurried other)
  rfl

theorem setCore_away (scheduler : PinnedScheduler n)
    (away : scheduler.threadCore thread = none)
    (free : scheduler.coreThread core = none) :
    scheduler.setCore thread (some core) = .ok
      { scheduler with
        threadCore := update scheduler.threadCore thread (some core)
        coreThread :=
          update scheduler.coreThread core (some thread) } := by
  unfold setCore
  rw [away]
  exact if_pos free

theorem setCore_leave (place : scheduler.threadCore thread = some core) :
    scheduler.setCore thread none = .ok
      { scheduler with
        threadCore := update scheduler.threadCore thread none
        coreThread := update scheduler.coreThread core none } := by
  unfold setCore
  rw [place]

/-! ## Creation -/

/-- The thread as `threadCreate` leaves it if no core is free. -/
def born (scheduler : PinnedScheduler n) (initial : Fin n → Bool) :
    PinnedScheduler n :=
  ({ scheduler with
      numThreads := scheduler.numThreads + 1 }.setInfo scheduler.numThreads
    { scheduler.threadInfo scheduler.numThreads with
      affinity := initial
      hasAffinity := (List.finRange n).any initial
      coreRunning := none }).setStatus
    scheduler.numThreads .initializing

theorem view_born (gone : scheduler.view scheduler.numThreads = .gone)
    (initial : Fin n → Bool) :
    (scheduler.born initial).view =
      update scheduler.view scheduler.numThreads .created := by
  unfold born
  rw [setStatus_view]
  funext other
  by_cases same : other = scheduler.numThreads
  · subst same
    have parts := View.ext_iff.mp gone
    rw [update_self, update_self]
    refine View.ext rfl parts.2.1 ?_ parts.2.2.2
    simp [view, setInfo, View.created]
  · rw [update_of_ne same, update_of_ne same]
    refine View.ext rfl rfl ?_ rfl
    exact congrArg ThreadInfo.coreRunning (update_of_ne same _ _)

theorem pinned_born (scheduler : PinnedScheduler n) (core : Fin n) :
    (scheduler.born fun other => other = core).Pinned scheduler.numThreads
      core := by
  intro other
  simp [born, setInfo, setStatus]

/-- The effect on what is not the new thread. -/
theorem effect_born (core : Fin n)
    (gone : scheduler.view scheduler.numThreads = .gone)
    (initial : Fin n → Bool) :
    Effect scheduler (scheduler.born initial) core
      (scheduler.coreThreadRunning core) (scheduler.coreThread core)
      (update scheduler.view scheduler.numThreads .created) [] := by
  refine ⟨?_, ?_, view_born gone initial, ?_, ?_, ?_, ?_⟩
  · exact (update_eq_self _ _).symm
  · exact (update_eq_self _ _).symm
  · exact (List.append_nil _).symm
  · intro thread core older pinned other
    refine Eq.trans ?_ (pinned other)
    exact congrArg (fun info : ThreadInfo n => info.affinity other)
      (update_of_ne older.ne _ _)
  · intro thread later
    exact congrArg ThreadInfo.hasAffinity
      (update_of_ne (Nat.ne_of_gt later) _ _)
  · intro unhurried thread
    by_cases same : thread = scheduler.numThreads
    · subst same
      refine Eq.trans ?_ (unhurried scheduler.numThreads)
      simp [born, setInfo, setStatus, ThreadManager.setState]
    · exact (congrArg ThreadState.stalledReason
        (update_of_ne same _ _)).trans (unhurried _)

theorem setInfo_self (scheduler : PinnedScheduler n) (thread : ThreadId) :
    scheduler.setInfo thread (scheduler.threadInfo thread) = scheduler := by
  unfold setInfo
  rw [update_eq_self]

/-- The thread is placed on a free core by `threadCreate`. -/
def occupy (scheduler : PinnedScheduler n) (thread : ThreadId)
    (core : Fin n) : PinnedScheduler n :=
  { (scheduler.setInfo thread
      { scheduler.threadInfo thread with
        coreRunning := some core }) with
    coreThreadRunning :=
      update scheduler.coreThreadRunning core (some thread)
    placements := scheduler.placements ++
      [⟨thread, core, (scheduler.threadInfo thread).affinity core⟩] }

theorem createThread_eq {initial : Fin n → Bool}
    (gone : scheduler.view scheduler.numThreads = .gone)
    (fresh : (scheduler.threadInfo scheduler.numThreads).hasAffinity = false) :
    scheduler.createThread initial =
      match (scheduler.born initial).findFreeCoreForThread
        scheduler.numThreads with
      | none => .ok (scheduler.born initial)
      | some core =>
          ((((scheduler.born initial).occupy scheduler.numThreads
            core).refill core).setCore scheduler.numThreads (some core)).map
            fun moved => { moved with
              coreState := update moved.coreState core
                .initializing } := by
  unfold createThread
  extract_lets thread info pinned created
  have idle : info.coreRunning = none := (View.ext_iff.mp gone).2.2.1
  have still : pinned =
      { info with
        affinity := initial
        hasAffinity := (List.finRange n).any initial
        coreRunning := none } := by
    refine (if_neg ?_).trans ?_
    · rw [fresh]
      decide
    · rw [← idle]
  have same : created = scheduler.born initial := by
    unfold created born
    rw [still]
  have known : (scheduler.born initial).threadInfo thread =
      { info with
        affinity := initial
        hasAffinity := (List.finRange n).any initial
        coreRunning := none } :=
    update_self _ _ _
  rw [still, same]
  split
  next nowhere =>
    rw [nowhere]
    exact congrArg Except.ok
      ((congrArg (PinnedScheduler.setInfo _ thread) known).symm.trans
        (setInfo_self _ thread))
  next core found =>
    rw [found]
    unfold occupy
    rw [known]
    exact bind_pure_comp _ _

/-- A thread is created for a core that is taken. -/
theorem createThread_taken {initial : Fin n → Bool}
    (gone : scheduler.view scheduler.numThreads = .gone)
    (fresh : (scheduler.threadInfo scheduler.numThreads).hasAffinity = false)
    (taken : (scheduler.born initial).findFreeCoreForThread
      scheduler.numThreads = none) :
    scheduler.createThread initial = .ok (scheduler.born initial) := by
  rw [createThread_eq gone fresh, taken]

theorem createThread_free (gone : scheduler.view scheduler.numThreads = .gone)
    (fresh : (scheduler.threadInfo scheduler.numThreads).hasAffinity = false)
    (free : scheduler.coreThreadRunning core = none)
    (vacant : scheduler.coreThread core = none) :
    ∃ next, scheduler.createThread (fun other => other = core) = .ok next ∧
      next.numThreads = scheduler.numThreads + 1 ∧
      next.Pinned scheduler.numThreads core ∧
      Effect scheduler next core (some scheduler.numThreads)
        (some scheduler.numThreads)
        (update scheduler.view scheduler.numThreads
          (.arriving core))
        [⟨scheduler.numThreads, core, true⟩] := by
  have pinned := scheduler.pinned_born core
  have found : (scheduler.born fun other => other = core).findFreeCoreForThread
      scheduler.numThreads = some core := by
    rw [findFreeCore_pinned pinned]
    exact if_pos free
  have effect := effect_born core gone fun other => other = core
  have count : (scheduler.born fun other => other = core).numThreads =
      scheduler.numThreads + 1 := rfl
  rw [createThread_eq gone fresh, found]
  dsimp only
  generalize scheduler.born (fun other => other = core) = created at *
  have away : created.threadCore scheduler.numThreads = none := by
    refine (congrArg View.threadCore (congrFun effect.views _)).trans ?_
    rw [update_self]
    rfl
  have still : created.coreThread core = none := by
    rw [effect.occupant, update_self, vacant]
  rw [setCore_away ((created.occupy _ core).refill core) away still]
  refine ⟨_, rfl, count, ?_, ?_, ?_, ?_, ?_, ?_, ?_, effect.unhurried⟩
  · intro other
    change (update created.threadInfo _ _ _).affinity other = _
    rw [update_self]
    exact pinned other
  · change update created.coreThreadRunning _ _ = _
    rw [effect.running, update_idem]
  · change update created.coreThread _ _ = _
    rw [effect.occupant, update_idem]
  · funext other
    have before := congrFun effect.views other
    by_cases same : other = scheduler.numThreads
    · rw [same, update_self] at before ⊢
      have parts := View.ext_iff.mp before
      refine View.ext parts.1 parts.2.1 ?_ (update_self _ _ _)
      change (update created.threadInfo _ _ _).coreRunning = _
      rw [update_self]
      rfl
    · rw [update_of_ne same] at before ⊢
      have parts := View.ext_iff.mp before
      refine View.ext parts.1 parts.2.1 ?_
        ((update_of_ne same _ _).trans parts.2.2.2)
      change (update created.threadInfo _ _ _).coreRunning = _
      rw [update_of_ne same]
      exact parts.2.2.1
  · change created.placements ++ [_] = _
    rw [effect.placements, List.append_nil, pinned core]
    simp
  · intro other core older kept place
    change (update created.threadInfo _ _ _).affinity place = _
    rw [update_of_ne older.ne]
    exact effect.pinned older kept place
  · intro other later
    have apart : other ≠ scheduler.numThreads :=
      Nat.ne_of_gt (count.symm.trans_le later)
    change (update created.threadInfo _ _ _).hasAffinity = _
    rw [update_of_ne apart]
    exact effect.fresh later

/-! ## Handing a core over -/

theorem Effect.trans {middle : PinnedScheduler n}
    {running occupant running' occupant' : Option ThreadId}
    {views views' : ThreadId → View n} {added added' : List (Placement n)}
    (earlier : Effect scheduler middle core running occupant views added)
    (later : Effect middle next core running' occupant' views' added')
    (count : middle.numThreads = scheduler.numThreads)
    (still : next.numThreads = middle.numThreads) :
    Effect scheduler next core running' occupant' views'
      (added ++ added') := by
  refine ⟨?_, ?_, later.views, ?_, ?_, ?_, fun unhurried =>
    later.unhurried (earlier.unhurried unhurried)⟩
  · rw [later.running, earlier.running, update_idem]
  · rw [later.occupant, earlier.occupant, update_idem]
  · rw [later.placements, earlier.placements, List.append_assoc]
  · intro thread other older pinned
    exact later.pinned (count.symm ▸ older) (earlier.pinned older pinned)
  · intro thread newer
    exact (later.fresh newer).trans (earlier.fresh (still ▸ newer))

theorem moveThread_away (scheduler : PinnedScheduler n) {again : Again n}
    (away : scheduler.threadCore thread = none) :
    scheduler.moveThread again thread none time = .ok
      { scheduler with
        threadCore := update scheduler.threadCore thread none } := by
  unfold moveThread
  rw [away]
  dsimp only
  unfold setCore
  rw [away]

theorem moveThread_unscheduled {again : Again n}
    (pinned : scheduler.Pinned thread core)
    (taken : scheduler.coreThreadRunning core ≠ none)
    (vacant : scheduler.coreThread core = none)
    (unscheduled : scheduler.Unscheduled thread) :
    scheduler.moveThread again thread (some core) time = .ok
      { scheduler.awaken thread time with
        threadCore := update scheduler.threadCore thread (some core)
        coreThread := update scheduler.coreThread core (some thread)
        coreState :=
          update scheduler.coreState core .running } := by
  have nowhere : (scheduler.awaken thread time).findFreeCoreForThread thread =
      none :=
    (findFreeCore_pinned pinned).trans (if_neg taken)
  have wakes : scheduler.wakeUnscheduled again thread time =
      .ok (scheduler.awaken thread time) := by
    refine (if_pos unscheduled).trans ?_
    unfold resumeThread threadResume
    rw [nowhere]
  unfold moveThread
  rw [unscheduled.1]
  dsimp only
  rw [wakes]
  change ((scheduler.awaken thread time).setCore thread (some core)).bind _ = _
  rw [setCore_away (scheduler.awaken thread time) unscheduled.1 vacant]
  refine if_neg ?_
  intro stalled
  have running : (scheduler.awaken thread time).status thread = .running :=
    (status_awaken thread thread time).trans (if_pos rfl)
  exact absurd (running.symm.trans stalled) (by decide)

/-- A thread that has left its core is taken off it in the tables. -/
theorem unschedule_lingering (again : Again n) (time : Time)
    (running : scheduler.coreThreadRunning core = some thread)
    (lingering : scheduler.view thread = .lingering core) :
    ∃ next, scheduler.unschedule again time core = .ok next ∧
      next.numThreads = scheduler.numThreads ∧
      Effect scheduler next core (some thread) (scheduler.coreThread core)
        (update scheduler.view thread .gone) [] := by
  have away : scheduler.threadCore thread = none :=
    congrArg View.threadCore lingering
  unfold unschedule
  rw [running]
  dsimp only
  rw [moveThread_away { scheduler.setInfo thread _ with removals := _ } away]
  refine ⟨_, rfl, rfl, ?_, ?_, ?_, ?_, ?_, ?_, id⟩
  · exact (update_eq_self_iff.mpr running.symm).symm
  · exact (update_eq_self _ _).symm
  · funext other
    by_cases same : other = thread
    · subst same
      have parts := View.ext_iff.mp lingering
      rw [update_self]
      refine View.ext parts.1 parts.2.1 ?_ (update_self _ _ _)
      change (update scheduler.threadInfo _ _ _).coreRunning = _
      rw [update_self]
      rfl
    · rw [update_of_ne same]
      refine View.ext rfl rfl ?_ (update_of_ne same _ _)
      change (update scheduler.threadInfo _ _ _).coreRunning = _
      rw [update_of_ne same]
      rfl
  · exact (List.append_nil _).symm
  · intro other core _ kept place
    refine (congrFun (update_part ThreadInfo.affinity ?_ other) place).trans
      (kept place)
    rfl
  · intro other _
    refine update_part ThreadInfo.hasAffinity ?_ other
    rfl

/-- The thread that waits for the core is placed on it. -/
theorem assign_waiting (again : Again n) (time : Time)
    (pinned : scheduler.Pinned thread core)
    (vacant : scheduler.coreThread core = none)
    (waiting : scheduler.view thread = { View.waiting with runnable := true })
    (unhurried : scheduler.Unhurried) :
    ∃ next, scheduler.assign again time core (some thread) = .ok next ∧
      next.numThreads = scheduler.numThreads ∧
      Effect scheduler next core (some thread) (some thread)
        (update scheduler.view thread (.executing core))
        [⟨thread, core, true⟩] := by
  have parts := View.ext_iff.mp waiting
  unfold assign
  extract_lets taken
  have free : taken.forget thread = taken := by
    unfold forget
    rw [show (taken.threadInfo thread).coreRunning = none from parts.2.2.1]
  dsimp only
  rw [free]
  refine ⟨_, moveThread_unscheduled ?_ ?_ vacant ?_, ?_, ?_⟩
  · intro place
    refine (congrFun (update_part ThreadInfo.affinity ?_ thread) place).trans
      (pinned place)
    rfl
  · intro idle
    have filled : update scheduler.coreThreadRunning core
        (some thread) core = none := idle
    rw [update_self] at filled
    cases filled
  · exact ⟨parts.2.2.2, parts.1, unhurried thread⟩
  · rfl
  refine ⟨rfl, rfl, ?_, ?_, ?_, ?_, ?_⟩
  · funext other
    by_cases same : other = thread
    · subst same
      rw [update_self]
      refine View.ext ?_ (update_self _ _ _) ?_
        (update_self _ _ _)
      · exact (status_awaken other other time).trans (if_pos rfl)
      · change (update scheduler.threadInfo _ _ _).coreRunning = _
        rw [update_self]
        rfl
    · rw [update_of_ne same]
      refine View.ext ?_ (update_of_ne same _ _) ?_
        (update_of_ne same _ _)
      · exact (status_awaken thread other time).trans (if_neg same)
      · change (update scheduler.threadInfo _ _ _).coreRunning = _
        rw [update_of_ne same]
        rfl
  · change scheduler.placements ++ [_] = _
    rw [show (taken.threadInfo thread).affinity core = true from
      (pinned core).trans (decide_eq_true rfl)]
  · intro other core _ kept place
    refine (congrFun (update_part ThreadInfo.affinity ?_ other) place).trans
      (kept place)
    rfl
  · intro other _
    refine update_part ThreadInfo.hasAffinity ?_ other
    rfl
  · intro calm other
    refine (update_part ThreadState.stalledReason ?_ other).trans (calm other)
    rfl

theorem select_unique (time : Time)
    (able : scheduler.Candidate core thread)
    (born : thread < scheduler.numThreads)
    (unique : ∀ other, scheduler.Candidate core other → other = thread) :
    scheduler.select time core = some thread := by
  have best := best_select scheduler time core scheduler.numThreads
  unfold Best at best
  cases selected : scheduler.select time core with
  | none =>
      unfold select at selected
      rw [selected] at best
      exact absurd able (best.2 thread born)
  | some chosen =>
      unfold select at selected
      rw [selected] at best
      rw [unique chosen best.2.2.1]

/-- The core of a thread that has exited is given to the only thread that can
run on it. -/
theorem enough_handOver (scheduler : PinnedScheduler n) (time : Time)
    {old : ThreadId}
    (running : scheduler.coreThreadRunning core = some old)
    (lingering : scheduler.view old = .lingering core)
    (vacant : scheduler.coreThread core = none)
    (pinned : scheduler.Pinned thread core)
    (waiting : scheduler.view thread = { View.waiting with runnable := true })
    (unhurried : scheduler.Unhurried)
    (born : thread < scheduler.numThreads)
    (unique : ∀ other, scheduler.Candidate core other → other = thread) :
    ∃ next, enough time core scheduler = .ok next ∧
      next.numThreads = scheduler.numThreads ∧
      Effect scheduler next core (some thread) (some thread)
        (update (update scheduler.view old .gone) thread
          (.executing core))
        [⟨thread, core, true⟩] := by
  have different : thread ≠ old := by
    intro same
    rw [same, lingering] at waiting
    cases congrArg View.status waiting
  have able : scheduler.Candidate core thread := by
    have parts := View.ext_iff.mp waiting
    exact ⟨(pinned core).trans (decide_eq_true rfl), parts.2.1,
      .inl parts.2.2.1⟩
  have chosen := select_unique time able born unique
  have ready : ¬ scheduler.Starting core := by
    rintro ⟨other, runs, starting⟩
    obtain rfl := Option.some_inj.mp (running.symm.trans runs)
    have idle : scheduler.status old = .idle :=
      congrArg View.status lingering
    rw [idle] at starting
    cases starting
  obtain ⟨stopped, stops, still, left⟩ := unschedule_lingering
    (reschedule n) time running lingering
  have free : stopped.coreThread core = none := by
    rw [left.occupant, update_self, vacant]
  have waits : stopped.view thread =
      { View.waiting with runnable := true } := by
    rw [left.views, update_of_ne different, waiting]
  obtain ⟨placed, places, count, taken⟩ := assign_waiting
    (reschedule n) time (left.pinned born pinned) free
    waits (left.unhurried unhurried)
  have effect := left.trans taken still count
  rw [left.views] at effect
  refine ⟨placed.refill core, ?_, count.trans still, ?_⟩
  · unfold enough reschedule
    rw [if_neg ready, chosen, if_neg]
    · rw [stops]
      change (stopped.assign _ time core (some thread)).bind _ = _
      rw [places]
      rfl
    · rw [running]
      exact fun same => different (Option.some_inj.mp same).symm
  · exact ⟨effect.running, effect.occupant, effect.views, effect.placements,
      effect.pinned, effect.fresh, effect.unhurried⟩

end PinnedScheduler

namespace SchedulerSequential

variable {n : Nat} {scheduler : SchedulerSequential n} {core : Fin n}
variable {thread : ThreadId} {time : Time}

theorem affinityCore_pinned (scheduler : SchedulerSequential n)
    (pinned : scheduler.base.Pinned thread core) :
    scheduler.affinityCore thread = .ok core := by
  unfold affinityCore
  split
  next nowhere =>
    have absent := List.find?_eq_none.mp nowhere core (List.mem_finRange core)
    rw [pinned] at absent
    simp at absent
  next other found =>
    have fits := List.find?_some found
    rw [pinned, decide_eq_true_iff] at fits
    rw [fits]

/-! ## Starts -/

theorem threadStart_front (scheduler : SchedulerSequential n)
    (pinned : scheduler.base.Pinned thread core)
    (front : scheduler.base.coreThreadRunning core = some thread) :
    scheduler.threadStart thread = .ok
      { scheduler with
        nextThreadToExecute := update scheduler.nextThreadToExecute
          core (scheduler.nextThreadToExecute core + 1) } := by
  unfold threadStart
  rw [affinityCore_pinned scheduler pinned]
  exact if_pos front

theorem threadStart_queued (scheduler : SchedulerSequential n)
    (pinned : scheduler.base.Pinned thread core)
    (behind : scheduler.base.coreThreadRunning core ≠ some thread) :
    scheduler.threadStart thread = .ok
      { scheduler with
        base := { scheduler.base with
          runnable := update scheduler.base.runnable thread false }
        coreWaitingThreads := update scheduler.coreWaitingThreads
          core ((scheduler.coreWaitingThreads core).orderedInsert (· ≤ ·)
            thread) } := by
  unfold threadStart
  rw [affinityCore_pinned scheduler pinned]
  exact if_neg behind

theorem view_begun (scheduler : SchedulerSequential n) (thread : ThreadId) :
    (scheduler.begun thread).base.view =
      update scheduler.base.view thread
        { scheduler.base.view thread with
          status := .running
          runnable := true } := by
  have status := PinnedScheduler.setStatus_view scheduler.base
    thread .running
  funext other
  have parts := View.ext_iff.mp (congrFun status other)
  by_cases same : other = thread
  · subst same
    rw [update_self] at parts ⊢
    exact View.ext parts.1 (update_self _ _ _) rfl rfl
  · rw [update_of_ne same] at parts ⊢
    exact View.ext parts.1 (update_of_ne same _ _) rfl rfl

theorem view_settled (scheduler : SchedulerSequential n)
    (thread : ThreadId) :
    (scheduler.settled thread).base.view =
      update scheduler.base.view thread
        { scheduler.base.view thread with
          status := if (scheduler.base.threadCore thread).isSome then .running
            else .stalled } := by
  have status := fun status => PinnedScheduler.setStatus_view
    scheduler.base thread status
  unfold settled
  cases place : scheduler.base.threadCore thread with
  | some core => exact status .running
  | none =>
      refine Eq.trans ?_ (status .stalled)
      funext other
      refine View.ext ?_ rfl rfl rfl
      by_cases same : other = thread
      · simp [PinnedScheduler.view, PinnedScheduler.status,
          PinnedScheduler.setStatus, ThreadManager.stallThreadAsync,
          ThreadManager.setState, same]
      · simp [PinnedScheduler.view, PinnedScheduler.status,
          PinnedScheduler.setStatus, ThreadManager.stallThreadAsync,
          ThreadManager.setState, same]

/-- What a start changes apart from the thread. -/
theorem settled_frame (scheduler : SchedulerSequential n)
    (thread : ThreadId) :
    let base := (scheduler.settled thread).base
    base.numThreads = scheduler.base.numThreads ∧
      base.coreThreadRunning = scheduler.base.coreThreadRunning ∧
      base.coreThread = scheduler.base.coreThread ∧
      base.threadInfo = scheduler.base.threadInfo ∧
      base.placements = scheduler.base.placements ∧
      (scheduler.base.Unhurried → base.Unhurried) := by
  unfold settled
  cases scheduler.base.threadCore thread with
  | some core =>
      exact ⟨rfl, rfl, rfl, rfl, rfl, fun unhurried =>
        unhurried.setStatus thread .running⟩
  | none =>
      refine ⟨rfl, rfl, rfl, rfl, rfl, fun unhurried other => ?_⟩
      refine (PinnedScheduler.update_part ThreadState.stalledReason ?_
        other).trans (unhurried other)
      exact (unhurried thread).symm

/-- What a start leads to, whatever its hook does with the queue. -/
theorem effect_settled {started : SchedulerSequential n}
    (tables : ∃ runnable, started.base =
      { (scheduler.begun thread).base with runnable := runnable })
    (views : (started.settled thread).base.view = after) :
    (started.settled thread).base.numThreads = scheduler.base.numThreads ∧
      scheduler.base.Effect (started.settled thread).base core
        (scheduler.base.coreThreadRunning core)
        (scheduler.base.coreThread core) after [] := by
  obtain ⟨count, running, occupant, infos, placements, unhurried⟩ :=
    settled_frame started thread
  obtain ⟨runnable, same⟩ := tables
  rw [same] at count running occupant infos placements unhurried
  subst views
  exact ⟨count, .of_threads running occupant infos placements fun calm =>
    unhurried (calm.setStatus thread .running)⟩

/-- The thread that was placed on the core when it was created starts. -/
theorem onThreadStart_front (pinned : scheduler.base.Pinned thread core)
    (front : scheduler.base.coreThreadRunning core = some thread)
    (arriving : scheduler.base.view thread = .arriving core) :
    ∃ base, scheduler.onThreadStart thread = .ok
        { scheduler with
          base := base
          nextThreadToExecute := update
            scheduler.nextThreadToExecute core
            (scheduler.nextThreadToExecute core + 1) } ∧
      base.numThreads = scheduler.base.numThreads ∧
      scheduler.base.Effect base core (scheduler.base.coreThreadRunning core)
        (scheduler.base.coreThread core)
        (update scheduler.base.view thread (.executing core)) [] := by
  have place : (scheduler.begun thread).base.threadCore thread = some core :=
    congrArg View.threadCore arriving
  unfold onThreadStart
  rw [threadStart_front (scheduler.begun thread) pinned front]
  refine ⟨_, rfl, effect_settled ⟨_, rfl⟩ ?_⟩
  have begins := view_begun scheduler thread
  rw [view_settled]
  change update (scheduler.begun thread).base.view thread
    { (scheduler.begun thread).base.view thread with
      status := if ((scheduler.begun thread).base.threadCore thread).isSome
        then .running else .stalled } = _
  rw [begins, update_idem, update_self, place, arriving]
  rfl

/-- A thread that starts behind another one waits. -/
theorem onThreadStart_queued (pinned : scheduler.base.Pinned thread core)
    (behind : scheduler.base.coreThreadRunning core ≠ some thread)
    (created : scheduler.base.view thread = .created) :
    ∃ base, scheduler.onThreadStart thread = .ok
        { scheduler with
          base := base
          coreWaitingThreads := update scheduler.coreWaitingThreads
            core ((scheduler.coreWaitingThreads core).orderedInsert (· ≤ ·)
              thread) } ∧
      base.numThreads = scheduler.base.numThreads ∧
      scheduler.base.Effect base core (scheduler.base.coreThreadRunning core)
        (scheduler.base.coreThread core)
        (update scheduler.base.view thread .waiting) [] := by
  have place : (scheduler.begun thread).base.threadCore thread = none :=
    congrArg View.threadCore created
  unfold onThreadStart
  rw [threadStart_queued (scheduler.begun thread) pinned behind]
  refine ⟨_, rfl, effect_settled ⟨_, rfl⟩ ?_⟩
  have begins := view_begun scheduler thread
  rw [view_settled]
  funext other
  by_cases same : other = thread
  · subst same
    have parts := View.ext_iff.mp created
    rw [update_self, update_self]
    refine View.ext ?_ (update_self _ _ _) parts.2.2.1 parts.2.2.2
    change (if ((scheduler.begun other).base.threadCore other).isSome
      then CoreState.running else .stalled) = .stalled
    rw [place]
    rfl
  · have parts := View.ext_iff.mp (congrFun begins other)
    rw [update_of_ne same] at parts ⊢
    rw [update_of_ne same]
    exact View.ext parts.1
      ((update_of_ne same _ _).trans parts.2.1) parts.2.2.1
      parts.2.2.2

/-! ## Exits -/

/-- The core of a thread that exits is still taken. -/
theorem onThreadExit_eq (time : Time)
    (pinned : scheduler.base.Pinned thread core)
    (executing : scheduler.base.view thread = .executing core) :
    ∃ base, scheduler.onThreadExit thread time =
        allocateNext { scheduler with base := base } core time ∧
      base.numThreads = scheduler.base.numThreads ∧
      scheduler.base.Effect base core (scheduler.base.coreThreadRunning core)
        none (update scheduler.base.view thread (.lingering core))
        [] := by
  have place : scheduler.base.threadCore thread = some core :=
    congrArg View.threadCore executing
  let idle : PinnedScheduler n :=
    { scheduler.base.setStatus thread .idle with
      coreState := update scheduler.base.coreState core .idle }
  let left : PinnedScheduler n :=
    { idle with
      threadCore := update idle.threadCore thread none
      coreThread := update idle.coreThread core none }
  have leaves : idle.setCore thread none = .ok left :=
    PinnedScheduler.setCore_leave place
  have same : scheduler.onThreadExit thread time =
      threadExit { scheduler with base := left } thread time := by
    unfold onThreadExit
    dsimp only
    rw [show (scheduler.base.setStatus thread .idle).threadCore thread =
      some core from place]
    change (idle.setCore thread none).bind _ = _
    rw [leaves]
    rfl
  rw [same]
  unfold threadExit
  rw [affinityCore_pinned { scheduler with base := left } pinned]
  refine ⟨_, rfl, rfl, ?_, ?_, ?_, ?_, ?_, ?_, ?_⟩
  · exact (update_eq_self _ _).symm
  · rfl
  · have idles := PinnedScheduler.setStatus_view scheduler.base
      thread .idle
    funext other
    have parts := View.ext_iff.mp (congrFun idles other)
    by_cases here : other = thread
    · subst here
      rw [update_self] at parts ⊢
      refine View.ext parts.1 (update_self _ _ _) ?_
        (update_self _ _ _)
      change (update scheduler.base.threadInfo _ _ _).coreRunning = _
      rw [update_self]
      exact congrArg View.coreRunning executing
    · rw [update_of_ne here] at parts ⊢
      refine View.ext parts.1 (update_of_ne here _ _) ?_
        (update_of_ne here _ _)
      change (update scheduler.base.threadInfo _ _ _).coreRunning = _
      rw [update_of_ne here]
      rfl
  · exact (List.append_nil _).symm
  · intro other core _ kept place
    refine (congrFun (PinnedScheduler.update_part ThreadInfo.affinity ?_
      other) place).trans (kept place)
    rfl
  · intro other _
    refine PinnedScheduler.update_part ThreadInfo.hasAffinity ?_ other
    rfl
  · exact fun unhurried => unhurried.setStatus thread .idle

theorem allocateNext_stays
    (elsewhere : ∀ rest, scheduler.coreWaitingThreads core ≠
      scheduler.nextThreadToExecute core :: rest) :
    scheduler.allocateNext core time = .ok scheduler := by
  unfold allocateNext
  split
  · rfl
  next top rest queue =>
    refine if_pos ?_
    rintro rfl
    exact elsewhere rest queue

/-- The next thread takes the core over from one that has exited. -/
theorem allocateNext_handOver (time : Time) {old : ThreadId}
    {rest : List ThreadId}
    (queue : scheduler.coreWaitingThreads core = thread :: rest)
    (next : scheduler.nextThreadToExecute core = thread)
    (running : scheduler.base.coreThreadRunning core = some old)
    (lingering : scheduler.base.view old = .lingering core)
    (vacant : scheduler.base.coreThread core = none)
    (pinned : scheduler.base.Pinned thread core)
    (waiting : scheduler.base.view thread = .waiting)
    (unhurried : scheduler.base.Unhurried)
    (born : thread < scheduler.base.numThreads)
    (quiet : ∀ other,
      (scheduler.base.threadInfo other).affinity core = true →
        scheduler.base.runnable other = false) :
    ∃ base, scheduler.allocateNext core time = .ok
        { scheduler with
          base := base
          nextThreadToExecute := update
            scheduler.nextThreadToExecute core (thread + 1)
          coreWaitingThreads :=
            update scheduler.coreWaitingThreads core rest } ∧
      base.numThreads = scheduler.base.numThreads ∧
      scheduler.base.Effect base core (some thread) (some thread)
        (update (update scheduler.base.view old .gone)
          thread (.executing core))
        [⟨thread, core, true⟩] := by
  let awake : PinnedScheduler n :=
    { scheduler.base with
      runnable := update scheduler.base.runnable thread true }
  have different : old ≠ thread := by
    intro same
    rw [← same, lingering] at waiting
    cases congrArg View.status waiting
  have views : awake.view = update scheduler.base.view thread
      { View.waiting with runnable := true } := by
    funext other
    by_cases same : other = thread
    · subst same
      have parts := View.ext_iff.mp waiting
      rw [update_self]
      exact View.ext parts.1 (update_self _ _ _) parts.2.2.1
        parts.2.2.2
    · rw [update_of_ne same]
      exact View.ext rfl (update_of_ne same _ _) rfl rfl
  have lingers : awake.view old = .lingering core := by
    rw [views, update_of_ne different, lingering]
  have waits : awake.view thread = { View.waiting with runnable := true } := by
    rw [views, update_self]
  have alone : ∀ other, awake.Candidate core other → other = thread := by
    intro other able
    by_contra apart
    have silent := quiet other able.1
    have awakened : awake.runnable other = scheduler.base.runnable other :=
      update_of_ne apart _ _
    rw [← awakened, able.2.1] at silent
    cases silent
  obtain ⟨base, handed, count, effect⟩ := awake.enough_handOver
    time running lingers vacant pinned waits unhurried born alone
  refine ⟨base, ?_, count, effect.running, effect.occupant, ?_,
    effect.placements, effect.pinned, effect.fresh, effect.unhurried⟩
  · unfold allocateNext
    rw [queue, next]
    change (if thread ≠ thread then _ else (PinnedScheduler.enough time core
      awake).bind _) = _
    rw [if_neg (not_not_intro rfl), handed]
    rfl
  · rw [effect.views, views, update_comm different,
      update_comm different, update_idem]

end SchedulerSequential

end ChipletSniper.Threads
