import ChipletSniper.Threads.SchedulerAgreement

/-!
# Events of the pinned schedulers

Every event that the threads and the simulator can cause succeeds, and leaves
the tables of the scheduler and the pointers of the threads in agreement.
-/

namespace ChipletSniper.Threads

open Function

namespace PinnedScheduler

variable {n : Nat} {scheduler : PinnedScheduler n} {pending : Finset (Fin n)}

/-- No thread that is starting up lost its core. -/
def Spares (before after : PinnedScheduler n) : Prop :=
  ∀ core thread, before.coreThreadRunning core = some thread →
    before.status thread = .initializing →
      after.coreThreadRunning core = some thread ∧
        after.status thread = .initializing

theorem Spares.refl (scheduler : PinnedScheduler n) :
    Spares scheduler scheduler :=
  fun _ _ runs starting => ⟨runs, starting⟩

theorem Spares.trans {first middle last : PinnedScheduler n}
    (earlier : Spares first middle) (later : Spares middle last) :
    Spares first last := by
  intro core thread runs starting
  obtain ⟨still, also⟩ := earlier core thread runs starting
  exact later core thread still also

theorem Fills.spares {after : PinnedScheduler n}
    (fills : Fills scheduler after) : Spares scheduler after :=
  fun _ _ runs starting =>
    ⟨fills.running runs, fills.initializing.mpr starting⟩

theorem Moves.spares {core : Fin n} {after : PinnedScheduler n}
    (moves : Moves core scheduler after) : Spares scheduler after := by
  intro other thread runs starting
  refine ⟨?_, moves.initializing.mpr starting⟩
  by_cases same : other = core
  · subst same
    exact moves.starting runs starting
  · exact moves.others same runs

/-! ## Affinities and yielding -/

theorem Fine.bind {result : Except Halt (PinnedScheduler n)}
    {next : PinnedScheduler n → Except Halt (PinnedScheduler n)}
    (fine : Fine pending scheduler result)
    (later : ∀ {middle}, Inv pending middle → Fills scheduler middle →
      Fine pending middle (next middle)) :
    Fine pending scheduler (result.bind next) := by
  obtain ⟨middle, rfl, inv, fills, quiet⟩ := fine
  exact (later inv fills).after fills quiet

theorem Inv.threadResume (inv : Inv pending scheduler) (thread : ThreadId)
    (time : Time) :
    Fine pending scheduler (scheduler.threadResume enough thread time) :=
  enough_places.threadResume inv
    ((Finset.card_le_univ _).trans (Fintype.card_fin n).le) thread time

theorem Inv.setInfo (inv : Inv pending scheduler) {thread : ThreadId}
    {info : ThreadInfo n}
    (same : info.coreRunning = (scheduler.threadInfo thread).coreRunning) :
    Inv pending (scheduler.setInfo thread info) := by
  have still : ∀ other,
      ((scheduler.setInfo thread info).threadInfo other).coreRunning =
        (scheduler.threadInfo other).coreRunning := by
    intro other
    by_cases mine : other = thread
    · subst mine
      simp [PinnedScheduler.setInfo, same]
    · simp [PinnedScheduler.setInfo, mine]
  refine { inv with agree := ?_, unborn := ?_ }
  · intro core other
    rw [still]
    exact inv.agree
  · intro other later
    rw [still]
    exact inv.unborn later

theorem Inv.changeAffinity (inv : Inv pending scheduler) (thread : ThreadId)
    (mask : Option (Fin n → Bool)) :
    Inv pending (scheduler.changeAffinity thread mask) :=
  inv.setInfo rfl

/-- Only a thread's own call takes it off its core. -/
theorem Inv.threadSetAffinity (inv : Inv pending scheduler)
    (change : AffinityChange n) :
    Fine pending scheduler (scheduler.threadSetAffinity none change) := by
  have changed := inv.changeAffinity change.thread change.mask
  have fills : Fills scheduler
      (scheduler.changeAffinity change.thread change.mask) :=
    ⟨id, .rfl, id⟩
  unfold PinnedScheduler.threadSetAffinity
  dsimp only
  split
  · exact changed.fine.after fills rfl
  split
  next mine => cases mine
  split
  · split
    · exact changed.fine.after fills rfl
    · exact ⟨_, rfl, { changed with }, ⟨id, .rfl, id⟩, rfl⟩
  · split
    · exact (changed.threadResume change.thread change.time).after fills rfl
    · exact changed.fine.after fills rfl

theorem Inv.changeAffinities (inv : Inv pending scheduler)
    (changes : List (AffinityChange n)) :
    Fine pending scheduler (scheduler.changeAffinities changes) := by
  induction changes generalizing scheduler with
  | nil => exact inv.fine
  | cons change rest ih =>
      exact (inv.threadSetAffinity change).bind fun kept _ =>
        ih kept

/-- Between the events no core is pending. -/
theorem Inv.settled (inv : Inv ∅ scheduler) (core : Fin n) (time : Time) :
    ∃ next, enough time core scheduler = .ok next ∧ Inv ∅ next ∧
      Moves core scheduler next := by
  obtain ⟨next, same, kept, moves⟩ := inv.rescheduled
    (fun member => absurd member (Finset.notMem_empty core)) time
  exact ⟨next, same, by simpa using kept, moves⟩

/-- An event succeeds and spares the threads that are starting up. -/
def Succeeds (scheduler : PinnedScheduler n)
    (result : Except Halt (PinnedScheduler n)) : Prop :=
  ∃ next, result = .ok next ∧ Inv ∅ next ∧ Spares scheduler next

theorem Succeeds.bind {result : Except Halt (PinnedScheduler n)}
    {next : PinnedScheduler n → Except Halt (PinnedScheduler n)}
    (succeeds : Succeeds scheduler result)
    (later : ∀ {middle}, Inv ∅ middle → Succeeds middle (next middle)) :
    Succeeds scheduler (result.bind next) := by
  obtain ⟨middle, rfl, inv, spares⟩ := succeeds
  obtain ⟨last, same, kept, also⟩ := later inv
  exact ⟨last, same, kept, spares.trans also⟩

theorem Fine.succeeds {result : Except Halt (PinnedScheduler n)}
    (fine : Fine ∅ scheduler result) : Succeeds scheduler result := by
  obtain ⟨next, same, kept, fills, _⟩ := fine
  exact ⟨next, same, kept, fills.spares⟩

theorem Inv.enough_succeeds (inv : Inv ∅ scheduler) (core : Fin n)
    (time : Time) : Succeeds scheduler (enough time core scheduler) := by
  obtain ⟨next, same, kept, moves⟩ := inv.settled core time
  exact ⟨next, same, kept, moves.spares⟩

theorem Inv.leaveCore (inv : Inv ∅ scheduler) (thread : ThreadId)
    (time : Time) : Succeeds scheduler (scheduler.leaveCore thread time) := by
  unfold PinnedScheduler.leaveCore
  split
  · exact inv.fine.succeeds
  next core runs => exact inv.enough_succeeds core time

theorem Inv.threadYield (inv : Inv ∅ scheduler) (thread : ThreadId)
    (time : Time) :
    Succeeds scheduler (scheduler.threadYield thread time) := by
  unfold PinnedScheduler.threadYield
  split
  · exact inv.fine.succeeds
  next core runs =>
    have emptied : Inv ∅ { scheduler with
        quantumLeft := update scheduler.quantumLeft core 0 } :=
      { inv with }
    refine Succeeds.bind (emptied.enough_succeeds core time) fun kept => ?_
    split
    · exact kept.fine.succeeds
    · exact (kept.threadResume thread time).succeeds

theorem Inv.setAffinity (inv : Inv ∅ scheduler) (caller : Option ThreadId)
    (change : AffinityChange n) :
    Succeeds scheduler (scheduler.threadSetAffinity caller change) := by
  by_cases mine : caller = some change.thread
  · have changed := inv.changeAffinity change.thread change.mask
    unfold PinnedScheduler.threadSetAffinity
    dsimp only
    split
    · exact ⟨_, rfl, changed, Spares.refl scheduler⟩
    · exact changed.threadYield change.thread change.time
  · have same : scheduler.threadSetAffinity caller change =
        scheduler.threadSetAffinity none change := by
      simp [PinnedScheduler.threadSetAffinity, mine]
    rw [same]
    exact (inv.threadSetAffinity change).succeeds

/-- A loop whose steps succeed succeeds. -/
theorem Inv.foldlM {Item : Type*}
    {step : PinnedScheduler n → Item → Except Halt (PinnedScheduler n)}
    (succeeds : ∀ {scheduler item}, Inv ∅ scheduler →
      Succeeds scheduler (step scheduler item))
    (inv : Inv ∅ scheduler) (items : List Item) :
    Succeeds scheduler (items.foldlM step scheduler) := by
  induction items generalizing scheduler with
  | nil => exact inv.fine.succeeds
  | cons item rest ih =>
      rw [List.foldlM_cons]
      exact (succeeds inv).bind fun kept => ih kept

theorem Inv.periodic (inv : Inv ∅ scheduler) (time : Time)
    (changes : List (AffinityChange n)) :
    Succeeds scheduler (scheduler.periodic time changes) := by
  refine Succeeds.bind (inv.changeAffinities changes).succeeds ?_
  intro changed kept
  refine Succeeds.bind (Inv.foldlM ?_ kept (List.finRange n)) ?_
  · intro scheduler core inv
    split
    · exact inv.enough_succeeds core time
    · exact ⟨_, rfl, { inv with }, Spares.refl scheduler⟩
  · intro last final
    exact ⟨_, rfl, { final with }, Spares.refl last⟩

/-! ## Threads that start, stall and resume -/

theorem Inv.resume (inv : Inv ∅ scheduler) {thread : ThreadId}
    (started : scheduler.Started thread) (time : Time) :
    ∃ next, scheduler.resumeThread enough thread time = .ok next ∧
      Inv ∅ next ∧ Fills scheduler next := by
  obtain ⟨next, same, kept, fills, _⟩ :=
    (inv.awaken started time).threadResume thread time
  exact ⟨next, same, kept, (fills_awaken started time).trans fills⟩

theorem status_stalled (reason : StallType) {thread other : ThreadId}
    (different : other ≠ thread) :
    ((scheduler.threads.stallThreadAsync thread reason).state other).status =
      scheduler.status other := by
  simp [ThreadManager.stallThreadAsync, ThreadManager.setState, different,
    status]

/-- The state of a thread after `stallThread_async`. -/
theorem Inv.stalled (inv : Inv ∅ scheduler) {thread : ThreadId}
    (started : scheduler.Started thread) (reason : StallType)
    (runnable : ThreadId → Bool)
    (same : ∀ other, other ≠ thread →
      runnable other = scheduler.runnable other) :
    Inv ∅ { scheduler with
      threads := scheduler.threads.stallThreadAsync thread reason
      runnable := runnable } := by
  have own : ((scheduler.threads.stallThreadAsync thread reason).state
      thread).status = .stalled := by
    simp [ThreadManager.stallThreadAsync, ThreadManager.setState]
  refine inv.change (inv.born started) ?_ fun other different =>
    ⟨status_stalled reason different, same other different⟩
  rw [own]
  intro equal
  cases equal

theorem Inv.stall (inv : Inv ∅ scheduler) {thread : ThreadId}
    (started : scheduler.Started thread) (reason : StallType) (time : Time)
    (changes : List (AffinityChange n)) :
    Succeeds scheduler (scheduler.stallThread thread reason time changes) := by
  have spares : ∀ {runnable : ThreadId → Bool}, Spares scheduler
      { scheduler with
        threads := scheduler.threads.stallThreadAsync thread reason
        runnable := runnable } := by
    intro runnable core other runs starting
    refine ⟨runs, (status_stalled reason ?_).trans starting⟩
    rintro rfl
    exact started.ne_initializing starting
  unfold PinnedScheduler.stallThread
  dsimp only
  split
  · exact ⟨_, rfl, inv.stalled started reason _ fun _ _ => rfl, spares⟩
  · have quiet := inv.stalled started reason
      (update scheduler.runnable thread false)
      fun other different => update_of_ne different _ _
    obtain ⟨last, same, kept, also⟩ :=
      Succeeds.bind (quiet.changeAffinities changes).succeeds
        fun kept => kept.leaveCore thread time
    exact ⟨last, same, kept, spares.trans also⟩

theorem Inv.setStatus (inv : Inv pending scheduler) {thread : ThreadId}
    (born : thread < scheduler.numThreads) {status : CoreState}
    (ready : status ≠ .initializing) :
    Inv pending (scheduler.setStatus thread status) := by
  refine inv.change born ?_ fun other different => ⟨?_, rfl⟩
  · have own : (scheduler.setStatus thread status).status thread = status :=
      (status_setStatus thread thread status).trans (if_pos rfl)
    exact fun starting => ready (own.symm.trans starting)
  · exact (status_setStatus thread other status).trans (if_neg different)

theorem Inv.quiet (inv : Inv pending scheduler) (thread : ThreadId) :
    Inv pending { scheduler with
      runnable := update scheduler.runnable thread false } := by
  have still : ∀ {other}, scheduler.runnable other = false →
      update scheduler.runnable thread false other = false := by
    intro other stalled
    by_cases mine : other = thread
    · subst mine
      exact update_self _ _ _
    · exact (update_of_ne mine _ _).trans stalled
  exact
    { inv with
      fresh := fun starting => still (inv.fresh starting)
      unborn := fun later =>
        have old := inv.unborn later
        ⟨old.1, still old.2.1, old.2.2⟩ }

/-- The thread is alive in the tables and has no pointers. -/
theorem Inv.lift (inv : Inv pending scheduler) {core : Fin n}
    {thread : ThreadId}
    (runs : scheduler.coreThreadRunning core = some thread) :
    Inv (insert core pending) (scheduler.lifted thread) := by
  have settled : ∀ {other mover},
      (other ∉ insert core pending ∧
        scheduler.coreThreadRunning other = some mover) ↔
      other ≠ core ∧ other ∉ pending ∧
        scheduler.coreThreadRunning other = some mover := by
    intro other mover
    rw [Finset.mem_insert, not_or, and_assoc]
  refine
    { inv with
      threads := ?_
      cores := ?_
      busy := ?_ }
  · intro other mover
    refine Iff.trans ?_ settled.symm
    by_cases mine : mover = thread
    · subst mine
      refine iff_of_false ?_ ?_
      · simp [lifted]
      · rintro ⟨different, _, also⟩
        exact different (inv.one_core also runs)
    · refine Iff.trans ?_ (inv.threads.trans
        (and_iff_right_of_imp fun both => ?_).symm)
      · simp [lifted, mine]
      · rintro rfl
        have same := both.2
        rw [runs, Option.some.injEq] at same
        exact mine same.symm
  · intro other mover
    refine Iff.trans ?_ settled.symm
    rw [inv.emptied runs, inv.cores]
  · intro other member
    rcases Finset.mem_insert.mp member with rfl | earlier
    · change scheduler.coreThreadRunning other ≠ none
      rw [runs]
      nofun
    · exact inv.busy earlier

/-- The threads that an exit wakes are resumed one by one. -/
theorem Inv.resumeAll (inv : Inv ∅ scheduler) {woken : List ThreadId}
    (started : ∀ waiter ∈ woken, scheduler.Started waiter) (time : Time) :
    ∃ next, woken.foldlM (fun scheduler waiter =>
        scheduler.resumeThread enough waiter time) scheduler = .ok next ∧
      Inv ∅ next ∧ Fills scheduler next := by
  induction woken generalizing scheduler with
  | nil => exact ⟨scheduler, rfl, inv, .refl scheduler⟩
  | cons waiter rest ih =>
      obtain ⟨middle, same, kept, fills⟩ :=
        inv.resume (started waiter List.mem_cons_self) time
      obtain ⟨next, later, final, also⟩ := ih kept
        fun other member =>
          fills.started (started other (List.mem_cons_of_mem waiter member))
      refine ⟨next, ?_, final, fills.trans also⟩
      rw [List.foldlM_cons, same]
      exact later

theorem Inv.exit (inv : Inv ∅ scheduler) {thread : ThreadId}
    (running : scheduler.status thread = .running)
    (placed : scheduler.threadCore thread ≠ none) (time : Time)
    {woken : List ThreadId}
    (started : ∀ waiter ∈ woken, waiter ≠ thread ∧ scheduler.Started waiter)
    (changes : List (AffinityChange n)) :
    Succeeds scheduler (scheduler.onThreadExit thread time woken changes) := by
  obtain ⟨core, placed⟩ := Option.ne_none_iff_exists'.mp placed
  have runs := (inv.threads.mp placed).2
  have others : ∀ other, other ≠ thread →
      (scheduler.setStatus thread .idle).status other =
        scheduler.status other := by
    intro other different
    rw [status_setStatus, if_neg different]
  have own : (scheduler.setStatus thread .idle).status thread = .idle := by
    rw [status_setStatus, if_pos rfl]
  have waiters : ∀ waiter ∈ woken,
      (scheduler.setStatus thread .idle).Started waiter := by
    intro waiter member
    unfold Started
    rw [others waiter (started waiter member).1]
    exact (started waiter member).2
  have idle : Inv ∅ (scheduler.setStatus thread .idle) :=
    inv.setStatus (inv.born (.inl running)) nofun
  obtain ⟨exited, woke, kept, fills⟩ := idle.resumeAll waiters time
  have still := fills.running runs
  obtain ⟨changed, changes, also, later, quiet⟩ :=
    ((kept.lift still).quiet thread).changeAffinities changes
  have stays := later.running still
  have settled : Settled (insert core ∅) changed core := by
    refine fun _ => ⟨thread, stays, ?_, ?_⟩
    · rw [quiet]
      exact update_self _ _ _
    · intro starting
      have before : exited.status thread = .initializing :=
        later.initializing.mp starting
      rw [fills.initializing, own] at before
      cases before
  obtain ⟨last, leaves, final, moves⟩ := also.rescheduled settled time
  rw [Finset.erase_insert (Finset.notMem_empty core)] at final
  refine ⟨last, ?_, final, ?_⟩
  · have lifts := moveThread_none exited enough thread time
    unfold PinnedScheduler.onThreadExit
    rw [woke]
    unfold PinnedScheduler.moveThread at lifts
    dsimp only [bind, Except.bind] at lifts ⊢
    rw [lifts]
    dsimp only
    rw [changes]
    dsimp only [PinnedScheduler.leaveCore]
    rw [also.agree.mp stays]
    exact leaves
  · intro other mover placed starting
    have different : mover ≠ thread := by
      rintro rfl
      rw [running] at starting
      cases starting
    refine moves.spares other mover ?_ ?_
    · exact later.running (fills.running placed)
    · refine later.initializing.mpr (fills.initializing.mpr ?_)
      rw [others mover different, starting]

/-! ## Threads that are created -/

theorem Inv.starting (inv : Inv pending scheduler) {thread : ThreadId}
    (born : thread < scheduler.numThreads)
    (quiet : scheduler.runnable thread = false) :
    Inv pending (scheduler.setStatus thread .initializing) := by
  refine { inv with fresh := ?_, unborn := ?_ }
  · intro other starting
    by_cases mine : other = thread
    · subst mine
      exact quiet
    · rw [status_setStatus, if_neg mine] at starting
      exact inv.fresh starting
  · intro other later
    have different : other ≠ thread := by
      rintro rfl
      exact absurd born (Nat.not_lt.mpr later)
    obtain ⟨idle, still⟩ := inv.unborn later
    refine ⟨?_, still⟩
    rw [status_setStatus, if_neg different, idle]

theorem Inv.create (inv : Inv ∅ scheduler) (initial : Fin n → Bool) :
    Succeeds scheduler (scheduler.createThread initial) := by
  obtain ⟨_, quiet, alone⟩ := inv.unborn (le_refl scheduler.numThreads)
  unfold PinnedScheduler.createThread
  extract_lets thread info pinned created
  have unplaced : pinned.coreRunning = none := by
    simp only [pinned, info]
    split
    · exact alone
    · exact alone
  have grown : Inv ∅ { scheduler with numThreads := thread + 1 } :=
    { inv with unborn := fun later => inv.unborn (Nat.le_of_succ_le later) }
  have exists' : Inv ∅ created :=
    (grown.setInfo (unplaced.trans alone.symm)).starting
      (Nat.lt_succ_self thread) quiet
  have known : created.threadInfo thread = pinned :=
    update_self _ _ _
  have spares : Spares scheduler created := by
    intro core other runs starting
    have different : other ≠ thread := by
      rintro rfl
      rw [inv.agree.mp runs] at alone
      cases alone
    refine ⟨runs, ?_⟩
    exact ((status_setStatus thread other _).trans (if_neg different)).trans
      starting
  split
  · refine ⟨_, rfl, exists'.setInfo ?_, spares⟩
    rw [known, unplaced]
  next core found =>
    obtain ⟨affine, free⟩ := findFreeCoreForThread_some found
    rw [known] at affine
    have occupied := exists'.occupy
      { pinned with coreRunning := some core }
      ⟨thread, core, pinned.affinity core⟩ free (known ▸ unplaced)
      (Nat.lt_succ_self thread) rfl affine
    have taken := occupied.refill core
    have runs := update_self core (some thread)
      created.coreThreadRunning
    have attached := taken.attach (Finset.notMem_empty core) runs
    have sets := taken.setCore runs
    refine ⟨_, (congrArg (fun result => Except.bind result _) sets).trans rfl,
      { attached with }, spares.trans ?_⟩
    intro other mover also starting
    refine ⟨(update_of_ne ?_ _ _).trans also, starting⟩
    rintro rfl
    rw [free] at also
    cases also

/-- The state in which the hook of a thread that starts is called. -/
theorem Inv.begun (inv : Inv ∅ scheduler) {thread : ThreadId}
    (starting : scheduler.status thread = .initializing) :
    Inv ∅ { scheduler.setStatus thread .running with
      runnable := update scheduler.runnable thread true } := by
  have born : thread < scheduler.numThreads := by
    by_contra later
    rw [(inv.unborn (Nat.le_of_not_lt later)).1] at starting
    cases starting
  refine inv.change born ?_ fun other different => ⟨?_, ?_⟩
  · have own : (scheduler.setStatus thread .running).status thread =
        .running :=
      (status_setStatus thread thread _).trans (if_pos rfl)
    change (scheduler.setStatus thread .running).status thread ≠ _
    rw [own]
    nofun
  · exact (status_setStatus thread other _).trans (if_neg different)
  · exact update_of_ne different _ _

theorem Inv.start (inv : Inv ∅ scheduler) {thread : ThreadId}
    (starting : scheduler.status thread = .initializing) (time : Time) :
    ∃ next, scheduler.onThreadStart thread time = .ok next ∧ Inv ∅ next ∧
      ∀ {core other}, scheduler.coreThreadRunning core = some other →
        next.coreThreadRunning core = some other := by
  have running := inv.begun starting
  obtain ⟨started, same, kept, fills, _⟩ := running.threadResume thread time
  have alive : started.Started thread :=
    fills.started (.inl ((status_setStatus thread thread _).trans (if_pos rfl)))
  unfold PinnedScheduler.onThreadStart
  dsimp only [bind, Except.bind]
  rw [same]
  dsimp only
  split
  next core placed =>
    have last : Inv ∅ (started.setStatus thread .running) :=
      kept.setStatus (kept.born alive) nofun
    exact ⟨_, rfl, { last with }, fills.running⟩
  · refine ⟨_, rfl, ?_, fills.running⟩
    refine kept.change (kept.born alive) ?_ fun other different => ⟨?_, rfl⟩
    · simp [ThreadManager.stallThreadAsync, ThreadManager.setState]
    · simp [ThreadManager.stallThreadAsync, ThreadManager.setState, different,
        status]

/-! ## Runs -/

/-- No thread that was starting up lost its core in the event, though it may
have started. -/
def Kept (before after : PinnedScheduler n) : Prop :=
  ∀ core thread, before.coreThreadRunning core = some thread →
    before.status thread = .initializing →
      after.coreThreadRunning core = some thread

theorem Succeeds.kept {result : Except Halt (PinnedScheduler n)}
    (succeeds : Succeeds scheduler result) :
    ∃ next, result = .ok next ∧ Inv ∅ next ∧ Kept scheduler next := by
  obtain ⟨next, same, inv, spares⟩ := succeeds
  exact ⟨next, same, inv, fun core thread runs starting =>
    (spares core thread runs starting).1⟩

/-- An event succeeds, unless it is not one of those considered. -/
theorem Inv.step (inv : Inv ∅ scheduler) (event : Event n) :
    scheduler.step event = .error .outside ∨
      ∃ next, scheduler.step event = .ok next ∧ Inv ∅ next ∧
        Kept scheduler next := by
  cases event with
  | create initial => exact .inr (inv.create initial).kept
  | start thread time =>
      unfold PinnedScheduler.step
      dsimp only
      split
      next starting =>
        obtain ⟨next, same, kept, runs⟩ := inv.start starting time
        exact .inr ⟨next, same, kept, fun _ _ placed _ => runs placed⟩
      · exact .inl rfl
  | stall thread reason time changes =>
      unfold PinnedScheduler.step
      dsimp only
      split
      next started => exact .inr (inv.stall started reason time changes).kept
      · exact .inl rfl
  | resume thread time =>
      unfold PinnedScheduler.step
      dsimp only
      split
      next started =>
        obtain ⟨next, same, kept, fills⟩ := inv.resume started time
        exact .inr ⟨next, same, kept, fun _ _ runs _ => fills.running runs⟩
      · exact .inl rfl
  | exit thread time woken changes =>
      unfold PinnedScheduler.step
      dsimp only
      split
      next able =>
        exact .inr (inv.exit able.1 able.2.1 time able.2.2 changes).kept
      · exact .inl rfl
  | yield thread time => exact .inr (inv.threadYield thread time).kept
  | setAffinity caller change =>
      exact .inr (inv.setAffinity caller change).kept
  | periodic time changes => exact .inr (inv.periodic time changes).kept

theorem inv_initial (n : Nat) (quantum : Time) :
    Inv ∅ (initial n quantum) where
  agree := iff_of_false nofun nofun
  threads := iff_of_false nofun fun both => nomatch both.2
  cores := iff_of_false nofun fun both => nomatch both.2
  busy := fun member => absurd member (Finset.notMem_empty _)
  fresh := nofun
  unborn := fun _ => ⟨rfl, rfl, rfl⟩
  allowed := nofun
  spared := nofun

def run (events : List (Event n)) (scheduler : PinnedScheduler n) :
    Except Halt (PinnedScheduler n) :=
  events.foldlM step scheduler

theorem inv_run {quantum : Time} {events : List (Event n)}
    (reached : run events (initial n quantum) = .ok scheduler) :
    Inv ∅ scheduler := by
  refine Library.foldlM_induction (fun _ scheduler => Inv ∅ scheduler) ?_
    (inv_initial n quantum) reached
  intro event rest before after inv stepped
  rcases inv.step event with outside | ⟨next, same, kept, _⟩
  · rw [outside] at stepped
    cases stepped
  · rw [same] at stepped
    cases stepped
    exact kept

/-- The scheduler and the thread manager agree on who runs where. -/
structure Agreement (scheduler : PinnedScheduler n) : Prop where
  core_running : ∀ core thread,
    scheduler.coreThreadRunning core = some thread ↔
      (scheduler.threadInfo thread).coreRunning = some core
  thread_core : ∀ core thread,
    scheduler.coreThreadRunning core = some thread ↔
      scheduler.threadCore thread = some core
  core_thread : ∀ core thread,
    scheduler.coreThreadRunning core = some thread ↔
      scheduler.coreThread core = some thread
  one_core : ∀ first second thread,
    scheduler.coreThread first = some thread →
      scheduler.coreThread second = some thread → first = second
  one_thread : ∀ core first second,
    scheduler.threadCore first = some core →
      scheduler.threadCore second = some core → first = second
  placed_allowed : ∀ placement ∈ scheduler.placements,
    placement.allowed = true
  never_starting : ∀ removal ∈ scheduler.removals,
    removal.status ≠ .initializing

theorem Inv.agreement (inv : Inv ∅ scheduler) : Agreement scheduler := by
  have thread_core : ∀ core thread,
      scheduler.coreThreadRunning core = some thread ↔
        scheduler.threadCore thread = some core := fun core thread =>
    (inv.threads.trans
      (and_iff_right (Finset.notMem_empty core))).symm
  have core_thread : ∀ core thread,
      scheduler.coreThreadRunning core = some thread ↔
        scheduler.coreThread core = some thread := fun core thread =>
    (inv.cores.trans
      (and_iff_right (Finset.notMem_empty core))).symm
  refine ⟨fun _ _ => inv.agree, thread_core, core_thread, ?_, ?_,
    inv.allowed, inv.spared⟩
  · intro first second thread here there
    exact inv.one_core ((core_thread first thread).mpr here)
      ((core_thread second thread).mpr there)
  · intro core first second here there
    have runs := (thread_core core first).mpr here
    rw [(thread_core core second).mpr there, Option.some.injEq] at runs
    exact runs.symm

/-- After every run of events the tables and pointers agree, and no event that
follows fails the assertion in `setCore`, never stops rescheduling, or takes a
thread that is starting up off its core. -/
theorem scheduler_agrees_with_threads (n : Nat) (quantum : Time)
    (events : List (Event n)) (scheduler : PinnedScheduler n)
    (reached : run events (initial n quantum) = .ok scheduler) :
    scheduler.Agreement ∧
    ∀ event, scheduler.step event ≠ .error .occupied ∧
      scheduler.step event ≠ .error .depth ∧
      ∀ next, scheduler.step event = .ok next → Kept scheduler next := by
  have inv := inv_run reached
  refine ⟨inv.agreement, fun event => ?_⟩
  rcases inv.step event with outside | ⟨next, same, _, kept⟩
  · rw [outside]
    exact ⟨nofun, nofun, nofun⟩
  · rw [same]
    refine ⟨nofun, nofun, ?_⟩
    rintro _ ⟨⟩
    exact kept

/-- Three threads on two cores: the thread that got no core takes the one of a
thread that stalls, which later takes the core of the thread that exits. -/
theorem scheduler_agrees_with_threads_moved :
    ∃ scheduler, run [.create fun _ => true, .create fun _ => true,
        .create fun _ => true, .start 0 0, .start 1 0, .start 2 0,
        .stall 0 .futex 1000 [], .resume 0 2000, .exit 1 3000 [] []]
        (initial 2 100) = .ok scheduler ∧
      scheduler.coreThread 0 = some 2 ∧ scheduler.coreThread 1 = some 0 ∧
      scheduler.Agreement := by
  have reached : (run [.create fun _ => true, .create fun _ => true,
        .create fun _ => true, .start 0 0, .start 1 0, .start 2 0,
        .stall 0 .futex 1000 [], .resume 0 2000, .exit 1 3000 [] []]
        (initial 2 100)).map (fun scheduler =>
          (scheduler.coreThread 0, scheduler.coreThread 1)) =
        .ok (some 2, some 0) := by
    decide +kernel
  obtain ⟨scheduler, ran, seen⟩ := Library.map_eq_ok.mp reached
  simp only [Prod.mk.injEq] at seen
  exact ⟨scheduler, ran, seen.1, seen.2,
    (scheduler_agrees_with_threads 2 100 _ scheduler ran).1⟩

end PinnedScheduler

end ChipletSniper.Threads
