import ChipletSniper.Library.Runs
import ChipletSniper.Threads.PinnedScheduler
import Mathlib.Data.Fintype.Card

/-!
# The scheduler and the threads agree

While a thread is being moved, its core is taken in the tables and not yet in
the pointers. Such cores are pending; between the events there are none, and a
reschedule that is entered again never touches them.
-/

namespace ChipletSniper.Threads

open Function

namespace PinnedScheduler

variable {n : Nat} {scheduler : PinnedScheduler n} {pending : Finset (Fin n)}

/-- The tables and the pointers agree, but for the pending cores. -/
structure Inv (pending : Finset (Fin n)) (scheduler : PinnedScheduler n) :
    Prop where
  agree : ∀ {core thread}, scheduler.coreThreadRunning core = some thread ↔
    (scheduler.threadInfo thread).coreRunning = some core
  threads : ∀ {core thread}, scheduler.threadCore thread = some core ↔
    core ∉ pending ∧ scheduler.coreThreadRunning core = some thread
  cores : ∀ {core thread}, scheduler.coreThread core = some thread ↔
    core ∉ pending ∧ scheduler.coreThreadRunning core = some thread
  busy : ∀ {core}, core ∈ pending → scheduler.coreThreadRunning core ≠ none
  fresh : ∀ {thread}, scheduler.status thread = .initializing →
    scheduler.runnable thread = false
  unborn : ∀ {thread}, scheduler.numThreads ≤ thread →
    scheduler.status thread = .idle ∧ scheduler.runnable thread = false ∧
      (scheduler.threadInfo thread).coreRunning = none
  allowed : ∀ placement ∈ scheduler.placements, placement.allowed = true
  spared : ∀ removal ∈ scheduler.removals, removal.status ≠ .initializing

/-- Threads were only placed on free cores. -/
structure Fills (before after : PinnedScheduler n) : Prop where
  running : ∀ {core thread}, before.coreThreadRunning core = some thread →
    after.coreThreadRunning core = some thread
  initializing : ∀ {thread}, after.status thread = .initializing ↔
    before.status thread = .initializing
  started : ∀ {thread}, before.Started thread → after.Started thread

theorem Fills.refl (scheduler : PinnedScheduler n) :
    Fills scheduler scheduler :=
  ⟨id, .rfl, id⟩

theorem Fills.trans {first middle last : PinnedScheduler n}
    (earlier : Fills first middle) (later : Fills middle last) :
    Fills first last :=
  ⟨fun runs => later.running (earlier.running runs),
    later.initializing.trans earlier.initializing,
    fun started => later.started (earlier.started started)⟩

/-- The cores on which no thread runs. -/
def freeCores (scheduler : PinnedScheduler n) : Finset (Fin n) :=
  Finset.univ.filter fun core => scheduler.coreThreadRunning core = none

/-- A call succeeds and has only placed threads on free cores. -/
def Fine (pending : Finset (Fin n)) (scheduler : PinnedScheduler n)
    (result : Except Halt (PinnedScheduler n)) : Prop :=
  ∃ next, result = .ok next ∧ Inv pending next ∧ Fills scheduler next ∧
    next.runnable = scheduler.runnable

/-- Free cores are rescheduled without fail, when that may be entered again
for as many cores as are free. -/
def Places (depth : Nat) (again : Again n) : Prop :=
  ∀ {time core scheduler pending}, Inv pending scheduler →
    scheduler.coreThreadRunning core = none →
    scheduler.freeCores.card ≤ depth →
      Fine pending scheduler (again time core scheduler)

/-! ## Small steps -/

theorem Inv.pending_free (inv : Inv pending scheduler) {core : Fin n}
    (free : scheduler.coreThreadRunning core = none) : core ∉ pending :=
  fun member => inv.busy member free

/-- The thread and the core of a pending core do not know each other. -/
theorem Inv.detached (inv : Inv pending scheduler) {core : Fin n}
    {thread : ThreadId} (member : core ∈ pending)
    (runs : scheduler.coreThreadRunning core = some thread) :
    scheduler.threadCore thread = none ∧ scheduler.coreThread core = none := by
  constructor
  · cases placed : scheduler.threadCore thread with
    | none => rfl
    | some other =>
        obtain ⟨settled, also⟩ := inv.threads.mp placed
        have same := inv.agree.mp also
        rw [inv.agree.mp runs, Option.some.injEq] at same
        exact absurd (same ▸ member) settled
  · cases filled : scheduler.coreThread core with
    | none => rfl
    | some other => exact absurd member (inv.cores.mp filled).1

theorem mem_freeCores {core : Fin n} :
    core ∈ scheduler.freeCores ↔ scheduler.coreThreadRunning core = none := by
  simp [freeCores]

theorem findFreeCoreForThread_some {thread : ThreadId} {core : Fin n}
    (found : scheduler.findFreeCoreForThread thread = some core) :
    (scheduler.threadInfo thread).affinity core = true ∧
      scheduler.coreThreadRunning core = none := by
  have holds := List.find?_some found
  rwa [Bool.and_eq_true, Option.isNone_iff_eq_none] at holds

/-- The chosen thread is a candidate. -/
theorem candidate_of_select {time : Time} {core : Fin n} {thread : ThreadId}
    (selected : scheduler.select time core = some thread) :
    scheduler.Candidate core thread := by
  have kept : ∀ chosen ∈ scheduler.select time core,
      scheduler.Candidate core chosen := by
    unfold select
    refine Library.foldl_induction
      (fun _ (best : Option ThreadId × Int) =>
        ∀ chosen ∈ best.1, scheduler.Candidate core chosen) ?_ ?_
    · intro next rest best ih
      split
      next better =>
        rintro _ ⟨⟩
        exact better.1
      · exact ih
    · intro chosen member
      cases member
  exact kept thread selected

/-! ## Moving a thread -/

theorem Inv.refill (inv : Inv pending scheduler) (core : Fin n) :
    Inv pending (scheduler.refill core) :=
  { inv with }

/-- A free core is given to a thread that has none. -/
theorem Inv.occupy (inv : Inv pending scheduler) {core : Fin n}
    {thread : ThreadId} (info : ThreadInfo n) (placed : Placement n)
    (free : scheduler.coreThreadRunning core = none)
    (idle : (scheduler.threadInfo thread).coreRunning = none)
    (born : thread < scheduler.numThreads)
    (taken : info.coreRunning = some core) (allowed : placed.allowed = true) :
    Inv (insert core pending)
      { scheduler with
        threadInfo := update scheduler.threadInfo thread info
        coreThreadRunning := update scheduler.coreThreadRunning core
          (some thread)
        placements := scheduler.placements ++ [placed] } := by
  have elsewhere : ∀ {other},
      scheduler.coreThreadRunning other ≠ some thread := by
    intro other runs
    have also := inv.agree.mp runs
    rw [idle] at also
    cases also
  have shift : ∀ {other mover},
      (other ∉ insert core pending ∧
        update scheduler.coreThreadRunning core (some thread) other =
          some mover) ↔
      (other ∉ pending ∧ scheduler.coreThreadRunning other = some mover) := by
    intro other mover
    by_cases same : other = core
    · subst same
      simp [free]
    · simp [same]
  refine
    { inv with
      agree := ?_
      threads := inv.threads.trans shift.symm
      cores := inv.cores.trans shift.symm
      busy := ?_
      unborn := ?_
      allowed := ?_ }
  · intro other mover
    by_cases same : other = core
    · subst same
      by_cases mine : mover = thread
      · subst mine
        simp [taken]
      · simp only [update_self, update_of_ne mine,
          Option.some.injEq]
        rw [← inv.agree, free]
        simp [Ne.symm mine]
    · simp only [update_of_ne same]
      by_cases mine : mover = thread
      · subst mine
        simp only [update_self, taken, Option.some.injEq]
        exact ⟨fun runs => absurd runs elsewhere,
          fun equal => absurd equal.symm same⟩
      · simp only [update_of_ne mine]
        exact inv.agree
  · intro other member
    by_cases same : other = core
    · subst same
      simp
    · simp only [update_of_ne same]
      exact inv.busy ((Finset.mem_insert.mp member).resolve_left same)
  · intro other later
    have different : other ≠ thread := by
      rintro rfl
      exact absurd born (Nat.not_lt.mpr later)
    simp only [update_of_ne different]
    exact inv.unborn later
  · intro placement member
    rcases List.mem_append.mp member with earlier | added
    · exact inv.allowed placement earlier
    · obtain rfl := List.mem_singleton.mp added
      exact allowed

/-- The pointers of a pending core and its thread are set. -/
theorem Inv.attach {core : Fin n} (inv : Inv (insert core pending) scheduler)
    (outside : core ∉ pending) {thread : ThreadId}
    (runs : scheduler.coreThreadRunning core = some thread) :
    Inv pending
      { scheduler with
        threadCore := update scheduler.threadCore thread (some core)
        coreThread := update scheduler.coreThread core
          (some thread) } := by
  have only : ∀ {other}, scheduler.coreThreadRunning other = some thread ↔
      other = core := by
    intro other
    constructor
    · intro also
      have same := inv.agree.mp also
      rw [inv.agree.mp runs, Option.some.injEq] at same
      exact same.symm
    · rintro rfl
      exact runs
  have settled : ∀ {other mover}, other ≠ core ∨ mover ≠ thread →
      ((other ∉ insert core pending ∧
          scheduler.coreThreadRunning other = some mover) ↔
        other ∉ pending ∧ scheduler.coreThreadRunning other = some mover) := by
    intro other mover different
    refine and_congr_left fun also => ?_
    have apart : other ≠ core := by
      rintro rfl
      rw [runs, Option.some.injEq] at also
      exact different.elim (fun differ => differ rfl)
        fun differ => differ also.symm
    simp [apart]
  refine
    { inv with
      threads := ?_
      cores := ?_
      busy := fun member => inv.busy (Finset.mem_insert_of_mem member) }
  · intro other mover
    by_cases mine : mover = thread
    · subst mine
      simp only [update_self, Option.some.injEq, only]
      constructor
      · rintro rfl
        exact ⟨outside, rfl⟩
      · exact fun both => both.2.symm
    · simp only [update_of_ne mine]
      exact inv.threads.trans (settled (.inr mine))
  · intro other mover
    by_cases same : other = core
    · subst same
      simp [outside, runs]
    · simp only [update_of_ne same]
      exact inv.cores.trans (settled (.inl same))

/-- The assertion of `setCore` holds for a pending core. -/
theorem Inv.setCore {core : Fin n} (inv : Inv (insert core pending) scheduler)
    {thread : ThreadId}
    (runs : scheduler.coreThreadRunning core = some thread) :
    scheduler.setCore thread (some core) = .ok
      { scheduler with
        threadCore := update scheduler.threadCore thread (some core)
        coreThread := update scheduler.coreThread core
          (some thread) } := by
  obtain ⟨away, empty⟩ :=
    inv.detached (Finset.mem_insert_self core pending) runs
  simp [PinnedScheduler.setCore, away, empty]

/-! ## Resuming a thread -/

@[simp] theorem status_setStatus (thread other : ThreadId)
    (status : CoreState) :
    (scheduler.setStatus thread status).status other =
      if other = thread then status else scheduler.status other := by
  by_cases same : other = thread
  · simp [setStatus, PinnedScheduler.status, ThreadManager.setState, same]
  · simp [setStatus, PinnedScheduler.status, ThreadManager.setState, same]

@[simp] theorem status_awaken (thread other : ThreadId) (time : Time) :
    (scheduler.awaken thread time).status other =
      if other = thread then .running else scheduler.status other := by
  by_cases same : other = thread
  · simp [awaken, PinnedScheduler.status, ThreadManager.resumeThread,
      ThreadManager.resumeThreadAsync, ThreadManager.setState, same]
  · simp [awaken, PinnedScheduler.status, ThreadManager.resumeThread,
      ThreadManager.resumeThreadAsync, ThreadManager.setState,
      ThreadManager.signal, same]

theorem Started.ne_initializing {thread : ThreadId}
    (started : scheduler.Started thread) :
    scheduler.status thread ≠ .initializing := by
  rcases started with running | stalled
  · rw [running]
    nofun
  · rw [stalled]
    nofun

theorem Inv.born (inv : Inv pending scheduler) {thread : ThreadId}
    (started : scheduler.Started thread) : thread < scheduler.numThreads := by
  by_contra later
  have idle := (inv.unborn (Nat.le_of_not_lt later)).1
  rcases started with running | stalled
  · rw [idle] at running
    cases running
  · rw [idle] at stalled
    cases stalled

/-- A thread that exists is given a state in which it has started. -/
theorem Inv.change (inv : Inv pending scheduler) {thread : ThreadId}
    (born : thread < scheduler.numThreads) {threads : ThreadManager}
    {runnable : ThreadId → Bool}
    (ready : (threads.state thread).status ≠ .initializing)
    (others : ∀ other, other ≠ thread →
      (threads.state other).status = scheduler.status other ∧
        runnable other = scheduler.runnable other) :
    Inv pending
      { scheduler with threads := threads, runnable := runnable } := by
  refine { inv with fresh := ?_, unborn := ?_ }
  · intro other starting
    have different : other ≠ thread := by
      rintro rfl
      exact ready starting
    obtain ⟨same, still⟩ := others other different
    exact still.trans (inv.fresh (same.symm.trans starting))
  · intro other later
    have different : other ≠ thread := by
      rintro rfl
      exact absurd born (Nat.not_lt.mpr later)
    obtain ⟨same, still⟩ := others other different
    obtain ⟨idle, quiet, free⟩ := inv.unborn later
    exact ⟨same.trans idle, still.trans quiet, free⟩

theorem Inv.awaken (inv : Inv pending scheduler) {thread : ThreadId}
    (started : scheduler.Started thread) (time : Time) :
    Inv pending (scheduler.awaken thread time) := by
  refine inv.change (inv.born started) ?_ fun other different => ⟨?_, ?_⟩
  · have running : (scheduler.awaken thread time).status thread = .running :=
      (status_awaken thread thread time).trans (if_pos rfl)
    change (scheduler.awaken thread time).status thread ≠ .initializing
    rw [running]
    nofun
  · exact (status_awaken thread other time).trans (if_neg different)
  · exact update_of_ne different _ _

theorem fills_awaken {thread : ThreadId} (started : scheduler.Started thread)
    (time : Time) : Fills scheduler (scheduler.awaken thread time) := by
  refine ⟨id, ?_, ?_⟩
  · intro other
    rw [status_awaken]
    split
    next same =>
      subst same
      exact iff_of_false nofun started.ne_initializing
    · rfl
  · intro other also
    unfold Started
    rw [status_awaken]
    split
    · exact .inl rfl
    · exact also

theorem Inv.fine (inv : Inv pending scheduler) :
    Fine pending scheduler (.ok scheduler) :=
  ⟨scheduler, rfl, inv, .refl scheduler, rfl⟩

variable {depth : Nat} {again : Again n}

theorem Places.threadResume (places : Places depth again)
    (inv : Inv pending scheduler) (few : scheduler.freeCores.card ≤ depth)
    (thread : ThreadId) (time : Time) :
    Fine pending scheduler (scheduler.threadResume again thread time) := by
  unfold PinnedScheduler.threadResume
  split
  · exact inv.fine
  next core found =>
    exact places inv (findFreeCoreForThread_some found).2 few

/-- A core with no other free core than those that it was placed beside. -/
theorem Places.moveThread (places : Places depth again) {core : Fin n}
    (inv : Inv (insert core pending) scheduler) (outside : core ∉ pending)
    (few : scheduler.freeCores.card ≤ depth) {thread : ThreadId}
    (runs : scheduler.coreThreadRunning core = some thread)
    (born : scheduler.runnable thread = true) (time : Time) :
    Fine pending scheduler
      (scheduler.moveThread again thread (some core) time) := by
  obtain ⟨alone, _⟩ := inv.detached (Finset.mem_insert_self core pending) runs
  have awake : Fine (insert core pending) scheduler
      (scheduler.wakeUnscheduled again thread time) := by
    unfold wakeUnscheduled
    split
    next waits =>
      have started : scheduler.Started thread := .inr waits.2.1
      obtain ⟨next, same, kept, fills, quiet⟩ :=
        places.threadResume (inv.awaken started time) few thread time
      refine ⟨next, same, kept, (fills_awaken started time).trans fills, ?_⟩
      rw [quiet]
      refine update_eq_self_iff.mpr ?_
      exact born.symm
    · exact inv.fine
  obtain ⟨next, same, kept, fills, quiet⟩ := awake
  have placed := fills.running runs
  have settled := kept.attach outside placed
  have moved : scheduler.moveThread again thread (some core) time =
      (next.setCore thread (some core)).bind fun moved =>
        if moved.status thread = .stalled then .ok moved
        else .ok { moved with
          coreState := update moved.coreState core .running } := by
    unfold PinnedScheduler.moveThread
    rw [alone]
    exact congrArg (fun result => Except.bind result _) same
  rw [moved, kept.setCore placed]
  dsimp only [Except.bind]
  split
  · exact ⟨_, rfl, settled, ⟨fills.running, fills.initializing, fills.started⟩,
      quiet⟩
  · exact ⟨_, rfl, { settled with },
      ⟨fills.running, fills.initializing, fills.started⟩, quiet⟩

theorem Fine.after {middle : PinnedScheduler n}
    {result : Except Halt (PinnedScheduler n)} (fine : Fine pending middle result)
    (fills : Fills scheduler middle)
    (quiet : middle.runnable = scheduler.runnable) :
    Fine pending scheduler result := by
  obtain ⟨next, same, kept, later, still⟩ := fine
  exact ⟨next, same, kept, fills.trans later, still.trans quiet⟩

theorem Places.assign (places : Places depth again)
    (inv : Inv pending scheduler) {core : Fin n}
    (free : scheduler.coreThreadRunning core = none)
    (few : (scheduler.freeCores.erase core).card ≤ depth)
    {new : Option ThreadId}
    (able : ∀ thread ∈ new, scheduler.Candidate core thread) (time : Time) :
    Fine pending scheduler (scheduler.assign again time core new) := by
  have outside := inv.pending_free free
  cases new with
  | none =>
      have same : update scheduler.coreThreadRunning core none =
          scheduler.coreThreadRunning :=
        update_eq_self_iff.mpr free.symm
      simp only [PinnedScheduler.assign, same]
      exact inv.fine
  | some thread =>
      obtain ⟨affine, born, elsewhere⟩ := able thread rfl
      have idle : (scheduler.threadInfo thread).coreRunning = none := by
        refine elsewhere.resolve_right fun runs => ?_
        rw [inv.agree.mpr runs] at free
        cases free
      have known : thread < scheduler.numThreads := by
        by_contra later
        rw [(inv.unborn (Nat.le_of_not_lt later)).2.1] at born
        cases born
      have occupied := inv.occupy
        { scheduler.threadInfo thread with
          coreRunning := some core
          lastScheduledIn := time }
        ⟨thread, core, (scheduler.threadInfo thread).affinity core⟩
        free idle known rfl affine
      have taken : (Finset.univ.filter fun other => update
          scheduler.coreThreadRunning core (some thread) other = none) =
          scheduler.freeCores.erase core := by
        ext other
        by_cases same : other = core
        · simp [same]
        · simp [same, mem_freeCores]
      have fine := places.moveThread occupied outside
        (le_of_eq_of_le (congrArg Finset.card taken) few) (update_self _ _ _) born time
      unfold PinnedScheduler.assign
      simp only [forget, idle]
      refine fine.after ⟨?_, .rfl, id⟩ rfl
      intro other mover runs
      refine (update_of_ne ?_ _ _).trans runs
      rintro rfl
      rw [free] at runs
      cases runs

/-! ## Taking a thread off its core -/

/-- No thread runs on two cores. -/
theorem Inv.one_core (inv : Inv pending scheduler) {first second : Fin n}
    {thread : ThreadId}
    (here : scheduler.coreThreadRunning first = some thread)
    (there : scheduler.coreThreadRunning second = some thread) :
    first = second := by
  have same := inv.agree.mp here
  rw [inv.agree.mp there, Option.some.injEq] at same
  exact same.symm

theorem Inv.detach (inv : Inv pending scheduler) {core : Fin n}
    {thread : ThreadId}
    (runs : scheduler.coreThreadRunning core = some thread)
    (ready : scheduler.status thread ≠ .initializing) {info : ThreadInfo n}
    (idle : info.coreRunning = none) {coreThread : Fin n → Option ThreadId}
    (emptied : ∀ {other mover}, coreThread other = some mover ↔
      other ≠ core ∧ scheduler.coreThread other = some mover) :
    Inv (pending.erase core)
      { scheduler with
        threadInfo := update scheduler.threadInfo thread info
        coreThreadRunning := update scheduler.coreThreadRunning core
          none
        threadCore := update scheduler.threadCore thread none
        coreThread := coreThread
        removals := scheduler.removals ++
          [⟨thread, scheduler.status thread⟩] } := by
  have owner : ∀ {mover}, scheduler.coreThreadRunning core = some mover →
      mover = thread := by
    intro mover also
    rw [runs, Option.some.injEq] at also
    exact also.symm
  have settled : ∀ {other mover},
      (other ∉ pending.erase core ∧
        update scheduler.coreThreadRunning core none other =
          some mover) ↔
      other ≠ core ∧ other ∉ pending ∧
        scheduler.coreThreadRunning other = some mover := by
    intro other mover
    by_cases same : other = core
    · simp [same]
    · simp [same]
  refine
    { inv with
      agree := ?_
      threads := ?_
      cores := ?_
      busy := ?_
      unborn := ?_
      spared := ?_ }
  · intro other mover
    by_cases same : other = core
    · subst same
      simp only [update_self]
      refine iff_of_false nofun fun placed => ?_
      by_cases mine : mover = thread
      · subst mine
        rw [update_self, idle] at placed
        cases placed
      · rw [update_of_ne mine] at placed
        exact mine (owner (inv.agree.mpr placed))
    · simp only [update_of_ne same]
      by_cases mine : mover = thread
      · subst mine
        rw [update_self, idle]
        exact iff_of_false (fun also => same (inv.one_core also runs)) nofun
      · rw [update_of_ne mine]
        exact inv.agree
  · intro other mover
    refine Iff.trans ?_ settled.symm
    by_cases mine : mover = thread
    · subst mine
      simp only [update_self]
      refine iff_of_false nofun ?_
      rintro ⟨different, _, also⟩
      exact different (inv.one_core also runs)
    · simp only [update_of_ne mine]
      rw [inv.threads]
      refine (and_iff_right_of_imp fun both => ?_).symm
      rintro rfl
      exact mine (owner both.2)
  · intro other mover
    refine Iff.trans ?_ settled.symm
    rw [emptied, inv.cores]
  · intro other member
    obtain ⟨different, member⟩ := Finset.mem_erase.mp member
    simp only [update_of_ne different]
    exact inv.busy member
  · intro other later
    have different : other ≠ thread := by
      rintro rfl
      have free := (inv.unborn later).2.2
      rw [inv.agree.mp runs] at free
      cases free
    simp only [update_of_ne different]
    exact inv.unborn later
  · intro removal member
    rcases List.mem_append.mp member with earlier | added
    · exact inv.spared removal earlier
    · obtain rfl := List.mem_singleton.mp added
      exact ready

/-- The pointers and the core's state after a move of the thread to no core. -/
def lifted (scheduler : PinnedScheduler n) (thread : ThreadId) :
    PinnedScheduler n :=
  { scheduler with
    threadCore := update scheduler.threadCore thread none
    coreThread := match scheduler.threadCore thread with
      | none => scheduler.coreThread
      | some old => update scheduler.coreThread old none
    coreState := match scheduler.threadCore thread with
      | none => scheduler.coreState
      | some old => update scheduler.coreState old .idle }

theorem moveThread_none (scheduler : PinnedScheduler n) (again : Again n)
    (thread : ThreadId) (time : Time) :
    scheduler.moveThread again thread none time =
      .ok (scheduler.lifted thread) := by
  unfold PinnedScheduler.moveThread lifted
  cases placed : scheduler.threadCore thread with
  | none => simp [setCore, placed]
  | some old => simp [setCore, placed]

/-- Moving the thread of a core away empties that core and no other. -/
theorem Inv.emptied (inv : Inv pending scheduler) {core : Fin n}
    {thread : ThreadId}
    (runs : scheduler.coreThreadRunning core = some thread)
    {other : Fin n} {mover : ThreadId} :
    (scheduler.lifted thread).coreThread other = some mover ↔
      other ≠ core ∧ scheduler.coreThread other = some mover := by
  unfold lifted
  cases placed : scheduler.threadCore thread with
  | none =>
      refine (and_iff_right_of_imp fun filled => ?_).symm
      rintro rfl
      have outside := (inv.cores.mp filled).1
      rw [inv.threads.mpr ⟨outside, runs⟩] at placed
      cases placed
  | some old =>
      obtain rfl := inv.one_core (inv.threads.mp placed).2 runs
      by_cases same : other = old
      · simp [same]
      · simp [same]

/-- The core has been taken from its thread. -/
def vacate (scheduler : PinnedScheduler n) (core : Fin n) :
    PinnedScheduler n :=
  { scheduler with
    coreThreadRunning := update scheduler.coreThreadRunning core
      none }

theorem assign_vacate (again : Again n) (time : Time) (core : Fin n)
    (new : Option ThreadId) :
    (scheduler.vacate core).assign again time core new =
      scheduler.assign again time core new := by
  simp [PinnedScheduler.assign, vacate]

/-- Only the thread of one core lost its place. -/
structure Vacates (core : Fin n) (before after : PinnedScheduler n) :
    Prop where
  free : after.coreThreadRunning core = none
  others : ∀ {other}, other ≠ core →
    after.coreThreadRunning other = before.coreThreadRunning other
  threads : after.threads = before.threads
  runnable : after.runnable = before.runnable
  threadInfo : ∀ {thread}, before.coreThreadRunning core ≠ some thread →
    after.threadInfo thread = before.threadInfo thread

/-- A thread that is not starting up is taken off its core. -/
theorem Inv.unschedule (inv : Inv pending scheduler) {core : Fin n}
    (ready : ¬ scheduler.Starting core) (again : Again n) (time : Time) :
    ∃ stopped, scheduler.unschedule again time core = .ok stopped ∧
      Inv (pending.erase core) (stopped.vacate core) ∧
      Vacates core scheduler (stopped.vacate core) := by
  unfold PinnedScheduler.unschedule
  cases runs : scheduler.coreThreadRunning core with
  | none =>
      have same : scheduler.vacate core = scheduler := by
        have still : update scheduler.coreThreadRunning core none =
            scheduler.coreThreadRunning :=
          update_eq_self_iff.mpr runs.symm
        simp [vacate, still]
      refine ⟨scheduler, rfl, ?_, ?_⟩
      · rw [same, Finset.erase_eq_of_notMem (inv.pending_free runs)]
        exact inv
      · rw [same]
        exact ⟨runs, fun _ => rfl, rfl, rfl, fun _ => rfl⟩
  | some thread =>
      have awake : scheduler.status thread ≠ .initializing := fun starting =>
        ready ⟨thread, runs, starting⟩
      have vacates : ∀ {info : ThreadInfo n} {next : PinnedScheduler n},
          next.coreThreadRunning = scheduler.coreThreadRunning →
          next.threads = scheduler.threads →
          next.runnable = scheduler.runnable →
          next.threadInfo = update scheduler.threadInfo thread info →
            Vacates core scheduler (next.vacate core) := by
        intro info next running threads runnable infos
        refine ⟨update_self _ _ _, fun different => ?_, threads,
          runnable, fun other => ?_⟩
        · refine (update_of_ne different _ _).trans ?_
          rw [running]
        · refine (congrFun infos _).trans (update_of_ne ?_ _ _)
          rintro rfl
          exact other runs
      refine ⟨_, moveThread_none _ again thread time, ?_,
        vacates rfl rfl rfl rfl⟩
      exact { inv.detach runs awake rfl (inv.emptied runs) with }

/-! ## Rescheduling -/

/-- Only one core may lose its thread, and not one that is starting up. -/
structure Moves (core : Fin n) (before after : PinnedScheduler n) :
    Prop where
  others : ∀ {other thread}, other ≠ core →
    before.coreThreadRunning other = some thread →
      after.coreThreadRunning other = some thread
  starting : ∀ {thread}, before.coreThreadRunning core = some thread →
    before.status thread = .initializing →
      after.coreThreadRunning core = some thread
  initializing : ∀ {thread}, after.status thread = .initializing ↔
    before.status thread = .initializing
  started : ∀ {thread}, before.Started thread → after.Started thread
  runnable : after.runnable = before.runnable

theorem Moves.refl (core : Fin n) (scheduler : PinnedScheduler n) :
    Moves core scheduler scheduler :=
  ⟨fun _ => id, fun runs _ => runs, .rfl, id, rfl⟩

theorem Moves.fills {core : Fin n} {after : PinnedScheduler n}
    (moves : Moves core scheduler after)
    (free : scheduler.coreThreadRunning core = none) :
    Fills scheduler after := by
  refine ⟨?_, moves.initializing, moves.started⟩
  intro other thread runs
  refine moves.others ?_ runs
  rintro rfl
  rw [free] at runs
  cases runs

theorem Places.replace (places : Places depth again)
    (inv : Inv pending scheduler) {core : Fin n}
    (ready : ¬ scheduler.Starting core)
    (few : (scheduler.freeCores.erase core).card ≤ depth) {time : Time}
    {new : Option ThreadId} (selected : scheduler.select time core = new)
    (different : scheduler.coreThreadRunning core ≠ new) :
    ∃ stopped placed, scheduler.unschedule again time core = .ok stopped ∧
      stopped.assign again time core new = .ok placed ∧
      Inv (pending.erase core) placed ∧ Moves core scheduler placed := by
  obtain ⟨stopped, same, kept, vacates⟩ := inv.unschedule ready again time
  have free : (stopped.vacate core).freeCores.erase core =
      scheduler.freeCores.erase core := by
    ext other
    by_cases equal : other = core
    · simp [equal]
    · simp [equal, mem_freeCores, vacates.others equal]
  have able : ∀ thread ∈ new,
      (stopped.vacate core).Candidate core thread := by
    rintro thread ⟨⟩
    obtain ⟨affine, born, elsewhere⟩ := candidate_of_select selected
    unfold Candidate
    rw [vacates.threadInfo different, vacates.runnable]
    exact ⟨affine, born, elsewhere⟩
  obtain ⟨placed, assigned, final, fills, quiet⟩ :=
    places.assign kept vacates.free (free ▸ few) able time
  rw [assign_vacate] at assigned
  have statuses : ∀ thread,
      (stopped.vacate core).status thread = scheduler.status thread := by
    intro thread
    unfold PinnedScheduler.status
    rw [vacates.threads]
  refine ⟨stopped, placed, same, assigned, final, ?_, ?_, ?_, ?_,
    quiet.trans vacates.runnable⟩
  · intro other thread apart runs
    refine fills.running ?_
    rw [vacates.others apart, runs]
  · intro thread runs starting
    exact absurd ⟨thread, runs, starting⟩ ready
  · intro thread
    rw [fills.initializing, statuses]
  · intro thread started
    refine fills.started ?_
    unfold Started
    rw [statuses]
    exact started

/-- A pending core is one whose thread can no longer run. -/
def Settled (pending : Finset (Fin n)) (scheduler : PinnedScheduler n)
    (core : Fin n) : Prop :=
  core ∈ pending → ∃ thread, scheduler.coreThreadRunning core = some thread ∧
    scheduler.runnable thread = false ∧
    scheduler.status thread ≠ .initializing

theorem Places.reschedule (places : Places depth (reschedule (n := n) depth))
    (inv : Inv pending scheduler) {core : Fin n}
    (settled : Settled pending scheduler core)
    (few : (scheduler.freeCores.erase core).card ≤ depth) (time : Time) :
    ∃ next, PinnedScheduler.reschedule (depth + 1) time core scheduler =
        .ok next ∧
      Inv (pending.erase core) next ∧ Moves core scheduler next := by
  unfold PinnedScheduler.reschedule
  split
  next starting =>
    refine ⟨scheduler, rfl, ?_, .refl core scheduler⟩
    rw [Finset.erase_eq_of_notMem]
    · exact inv
    · intro member
      obtain ⟨thread, runs, _, ready⟩ := settled member
      obtain ⟨other, also, initializing⟩ := starting
      rw [Option.mem_def, runs, Option.some.injEq] at also
      exact ready (also ▸ initializing)
  next ready =>
    split
    next same =>
      refine ⟨_, rfl, ?_, { Moves.refl core scheduler with }⟩
      rw [Finset.erase_eq_of_notMem]
      · exact inv.refill core
      · intro member
        obtain ⟨thread, runs, stalled, _⟩ := settled member
        rw [runs] at same
        have able := (candidate_of_select same.symm).2.1
        rw [stalled] at able
        cases able
    next different =>
      obtain ⟨stopped, placed, stops, assigned, kept, moves⟩ :=
        places.replace inv ready few rfl different
      rw [stops]
      change ∃ next, (stopped.assign (PinnedScheduler.reschedule depth) time
        core _).bind (fun placed => .ok (placed.refill core)) = .ok next ∧ _
      rw [assigned]
      exact ⟨_, rfl, kept.refill core, { moves with }⟩

/-- The induction is on the free cores: a reschedule that is entered again
finds the outer core taken. -/
theorem reschedule_places (depth : Nat) :
    Places (n := n) depth (reschedule depth) := by
  induction depth with
  | zero =>
      intro time core scheduler pending inv free few
      have member := mem_freeCores.mpr free
      rw [Finset.card_eq_zero.mp (Nat.le_zero.mp few)] at member
      cases member
  | succ depth ih =>
      intro time core scheduler pending inv free few
      have outside := inv.pending_free free
      have fewer : (scheduler.freeCores.erase core).card ≤ depth := by
        rw [Finset.card_erase_of_mem (mem_freeCores.mpr free)]
        exact Nat.sub_le_of_le_add few
      obtain ⟨next, same, kept, moves⟩ :=
        Places.reschedule ih inv
          (fun member => absurd member outside) fewer time
      rw [Finset.erase_eq_of_notMem outside] at kept
      exact ⟨next, same, kept, moves.fills free, moves.runnable⟩

theorem enough_places : Places (n := n) n enough := by
  intro time core scheduler pending inv free few
  exact reschedule_places (n + 1) inv free (Nat.le_succ_of_le few)

/-- A reschedule of any core succeeds. -/
theorem Inv.rescheduled (inv : Inv pending scheduler) {core : Fin n}
    (settled : Settled pending scheduler core) (time : Time) :
    ∃ next, PinnedScheduler.enough time core scheduler = .ok next ∧
      Inv (pending.erase core) next ∧ Moves core scheduler next := by
  refine Places.reschedule (reschedule_places n) inv settled ?_ time
  exact (Finset.card_le_univ _).trans (Fintype.card_fin n).le

end PinnedScheduler

end ChipletSniper.Threads
