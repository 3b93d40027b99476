import ChipletSniper.Threads.SchedulerTables
import ChipletSniper.Threads.SchedulerEvents

/-!
# Indices of the schedulers' tables

Every thread that was created has an entry in the one vector, and every thread
that was started has one in the other. What can fail is that a thread is
started whose number the second vector does not reach, and that a reschedule
walks over the second vector while it is longer than the first.
-/

namespace ChipletSniper.Threads

open Function

namespace SchedulerTables

variable {n : Nat} {tables next : SchedulerTables n}

/-- The entries that are used exist. -/
structure Fits (tables : SchedulerTables n) : Prop where
  known : tables.scheduler.numThreads ≤ tables.infoSize
  runnable : ∀ {thread}, tables.scheduler.runnable thread = true →
    thread < tables.runnableSize ∧ thread < tables.scheduler.numThreads
  running : ∀ {core thread},
    tables.scheduler.coreThreadRunning core = some thread →
      thread < tables.scheduler.numThreads
  started : ∀ {thread}, tables.scheduler.Started thread →
    thread < tables.runnableSize ∧ thread < tables.scheduler.numThreads
  starting : ∀ {thread}, tables.scheduler.status thread = .initializing →
    thread < tables.scheduler.numThreads

/-- No vector grew and no thread was created. -/
structure Same (before after : SchedulerTables n) : Prop where
  infoSize : after.infoSize = before.infoSize
  runnableSize : after.runnableSize = before.runnableSize
  numThreads : after.scheduler.numThreads = before.scheduler.numThreads

theorem Same.refl (tables : SchedulerTables n) : Same tables tables :=
  ⟨rfl, rfl, rfl⟩

theorem Same.trans {first middle last : SchedulerTables n}
    (earlier : Same first middle) (later : Same middle last) :
    Same first last :=
  ⟨later.infoSize.trans earlier.infoSize,
    later.runnableSize.trans earlier.runnableSize,
    later.numThreads.trans earlier.numThreads⟩

/-- The loop of a reschedule stays within the first vector. -/
def Covered (tables : SchedulerTables n) : Prop :=
  tables.runnableSize ≤ tables.infoSize

theorem Same.covered (same : Same tables next) (covered : tables.Covered) :
    next.Covered := by
  unfold Covered
  rw [same.infoSize, same.runnableSize]
  exact covered

/-- A call stays in range and keeps what holds of the vectors. -/
structure Keeps (tables : SchedulerTables n)
    (result : Except Fault (SchedulerTables n)) : Prop where
  ok : ∀ {next}, result = .ok next → Fits next ∧ Same tables next
  inRange : result ≠ .error .outOfRange

/-- A call stays in range, whatever grows in it. -/
structure Safe (result : Except Fault (SchedulerTables n)) : Prop where
  fits : ∀ {next}, result = .ok next → Fits next
  inRange : result ≠ .error .outOfRange

theorem Keeps.safe {result : Except Fault (SchedulerTables n)}
    (keeps : Keeps tables result) : Safe result :=
  ⟨fun run => (keeps.ok run).1, keeps.inRange⟩

theorem Keeps.of_ok (fits : Fits next) (same : Same tables next) :
    Keeps tables (.ok next) := by
  refine ⟨fun equal => ?_, fun fault => ?_⟩
  · cases equal
    exact ⟨fits, same⟩
  · cases fault

theorem Keeps.bind {first : Except Fault (SchedulerTables n)}
    {later : SchedulerTables n → Except Fault (SchedulerTables n)}
    (keeps : Keeps tables first)
    (follows : ∀ {middle}, Fits middle → Same tables middle →
      Keeps middle (later middle)) :
    Keeps tables (first.bind later) := by
  constructor
  · intro next run
    obtain ⟨middle, before, after⟩ := Library.bind_eq_ok.mp run
    obtain ⟨fits, same⟩ := keeps.ok before
    obtain ⟨final, also⟩ := (follows fits same).ok after
    exact ⟨final, same.trans also⟩
  · intro fault
    rcases Library.bind_eq_error.mp fault with before | ⟨middle, before, after⟩
    · exact keeps.inRange before
    · obtain ⟨fits, same⟩ := keeps.ok before
      exact (follows fits same).inRange after

theorem Keeps.after {middle : SchedulerTables n}
    {result : Except Fault (SchedulerTables n)} (keeps : Keeps middle result)
    (same : Same tables middle) : Keeps tables result :=
  ⟨fun run => ⟨(keeps.ok run).1, same.trans (keeps.ok run).2⟩, keeps.inRange⟩

/-! ## Single accesses -/

theorem Fits.indexInfo (fits : Fits tables) {thread : ThreadId}
    (born : thread < tables.scheduler.numThreads) :
    tables.indexInfo thread = .ok () :=
  if_pos (born.trans_le fits.known)

theorem indexRunnable_eq {thread : ThreadId}
    (reached : thread < tables.runnableSize) :
    tables.indexRunnable thread = .ok () :=
  if_pos reached

/-- What the tables do not tell apart. -/
theorem Fits.put (fits : Fits tables) (scheduler : PinnedScheduler n)
    (count : scheduler.numThreads = tables.scheduler.numThreads)
    (runnable : scheduler.runnable = tables.scheduler.runnable)
    (running : ∀ {core thread},
      scheduler.coreThreadRunning core = some thread →
        thread < tables.scheduler.numThreads)
    (threads : scheduler.threads = tables.scheduler.threads) :
    Fits (tables.put scheduler) ∧ Same tables (tables.put scheduler) := by
  refine ⟨⟨?_, ?_, ?_, ?_, ?_⟩, rfl, rfl, count⟩
  · exact count.le.trans fits.known
  · intro thread able
    change scheduler.runnable thread = true at able
    change thread < tables.runnableSize ∧ thread < scheduler.numThreads
    rw [runnable] at able
    rw [count]
    exact fits.runnable able
  · intro core thread runs
    change thread < scheduler.numThreads
    rw [count]
    exact running runs
  · intro thread started
    change thread < tables.runnableSize ∧ thread < scheduler.numThreads
    rw [count]
    refine fits.started ?_
    unfold PinnedScheduler.Started PinnedScheduler.status at started ⊢
    rw [← threads]
    exact started
  · intro thread starting
    change thread < scheduler.numThreads
    rw [count]
    refine fits.starting ?_
    unfold PinnedScheduler.status at starting ⊢
    rw [← threads]
    exact starting

theorem Keeps.put (fits : Fits tables) {scheduler : PinnedScheduler n}
    (count : scheduler.numThreads = tables.scheduler.numThreads)
    (runnable : scheduler.runnable = tables.scheduler.runnable)
    (running : ∀ {core thread},
      scheduler.coreThreadRunning core = some thread →
        thread < tables.scheduler.numThreads)
    (threads : scheduler.threads = tables.scheduler.threads) :
    Keeps tables (.ok (tables.put scheduler)) := by
  obtain ⟨kept, same⟩ := fits.put scheduler count runnable running threads
  exact .of_ok kept same

/-- A part that does not use the vectors. -/
theorem Keeps.lift {result : Except Halt (PinnedScheduler n)}
    (ok : ∀ {scheduler}, result = .ok scheduler →
      Fits (tables.put scheduler) ∧ Same tables (tables.put scheduler)) :
    Keeps tables (tables.lift result) := by
  cases result with
  | error halt =>
      refine ⟨fun run => ?_, fun fault => ?_⟩
      · cases run
      · cases fault
  | ok scheduler =>
      obtain ⟨kept, same⟩ := ok rfl
      exact .of_ok kept same

/-! ## The loop -/

theorem consider_eq {time : Time} {core : Fin n}
    {best : Option ThreadId × Int} {thread : ThreadId}
    (inside : thread < tables.infoSize) :
    tables.consider time core best thread = .ok
      (if tables.scheduler.Candidate core thread ∧
          best.2 < tables.scheduler.score time thread then
        (some thread, tables.scheduler.score time thread)
      else best) := by
  have index : tables.indexInfo thread = .ok () := if_pos inside
  unfold consider
  rw [index]
  dsimp only [bind, Except.bind]
  split
  · rfl
  · rfl

/-- The loop ends with a candidate or with none. -/
theorem Covered.select (covered : tables.Covered) (time : Time)
    (core : Fin n) :
    ∃ new, tables.select time core = .ok new ∧
      ∀ thread ∈ new, tables.scheduler.Candidate core thread := by
  have loop : ∀ (threads : List ThreadId) (best : Option ThreadId × Int),
      (∀ thread ∈ threads, thread < tables.infoSize) →
      (∀ thread ∈ best.1, tables.scheduler.Candidate core thread) →
      ∃ last, threads.foldlM (tables.consider time core) best = .ok last ∧
        ∀ thread ∈ last.1, tables.scheduler.Candidate core thread := by
    intro threads
    induction threads with
    | nil => exact fun best _ able => ⟨best, rfl, able⟩
    | cons thread rest ih =>
        intro best inside able
        rw [List.foldlM_cons, consider_eq (inside thread List.mem_cons_self)]
        refine ih _
          (fun other member => inside other (List.mem_cons_of_mem thread member))
          ?_
        split
        next better =>
          rintro _ ⟨⟩
          exact better.1
        · exact able
  obtain ⟨best, same, able⟩ := loop (List.range tables.runnableSize)
    (none, -2 ^ 63)
    (fun thread member => (List.mem_range.mp member).trans_le covered)
    (fun thread member => by cases member)
  refine ⟨best.1, ?_, able⟩
  unfold SchedulerTables.select
  rw [same]
  rfl

/-! ## Resuming and moving -/

/-- What `reschedule` is entered with keeps the vectors in range. -/
def AgainKeeps (again : Again n) : Prop :=
  ∀ {time core tables}, Fits tables → tables.Covered →
    Keeps tables (again time core tables)

variable {again : Again n} {time : Time}

theorem AgainKeeps.threadResume (keeps : AgainKeeps again)
    (fits : Fits tables) {thread : ThreadId}
    (born : thread < tables.scheduler.numThreads)
    (covered : tables.scheduler.findFreeCoreForThread thread ≠ none →
      tables.Covered) :
    Keeps tables (tables.threadResume again thread time) := by
  unfold SchedulerTables.threadResume SchedulerTables.findFreeCoreForThread
  rw [fits.indexInfo born]
  dsimp only [bind, Except.bind, pure, Except.pure]
  cases found : tables.scheduler.findFreeCoreForThread thread with
  | none => exact .of_ok fits (.refl tables)
  | some core =>
      refine keeps fits (covered ?_)
      rw [found]
      exact Option.some_ne_none core

/-- A thread that was started gets another state. -/
theorem Fits.alter (fits : Fits tables) {thread : ThreadId}
    (reached : thread < tables.runnableSize)
    (born : thread < tables.scheduler.numThreads)
    {threads : ThreadManager} {runnable : ThreadId → Bool}
    (able : ∀ {other}, other ≠ thread → runnable other = true →
      tables.scheduler.runnable other = true)
    (others : ∀ {other}, other ≠ thread →
      (threads.state other).status = tables.scheduler.status other) :
    Fits (tables.put
      { tables.scheduler with threads := threads, runnable := runnable }) := by
  refine ⟨fits.known, ?_, fits.running, ?_, ?_⟩
  · intro other runs
    by_cases mine : other = thread
    · rw [mine]
      exact ⟨reached, born⟩
    · exact fits.runnable (able mine runs)
  · intro other started
    by_cases mine : other = thread
    · rw [mine]
      exact ⟨reached, born⟩
    · refine fits.started ?_
      unfold PinnedScheduler.Started
      rw [← others mine]
      exact started
  · intro other starting
    by_cases mine : other = thread
    · rw [mine]
      exact born
    · exact fits.starting ((others mine).symm.trans starting)

theorem Fits.awaken (fits : Fits tables) {thread : ThreadId}
    (reached : thread < tables.runnableSize)
    (born : thread < tables.scheduler.numThreads) (time : Time) :
    Fits (tables.put (tables.scheduler.awaken thread time)) := by
  refine fits.alter reached born ?_ ?_
  · intro other mine able
    exact (update_of_ne mine _ _).symm.trans able
  · intro other mine
    exact (PinnedScheduler.status_awaken thread other time).trans (if_neg mine)

theorem AgainKeeps.resumeThread (keeps : AgainKeeps again)
    (fits : Fits tables) {thread : ThreadId}
    (reached : thread < tables.runnableSize)
    (born : thread < tables.scheduler.numThreads)
    (covered : tables.scheduler.findFreeCoreForThread thread ≠ none →
      tables.Covered) :
    Keeps tables (tables.resumeThread again thread time) := by
  unfold SchedulerTables.resumeThread
  rw [indexRunnable_eq reached]
  exact (keeps.threadResume (fits.awaken reached born time) born covered).after
    ⟨rfl, rfl, rfl⟩

theorem setCore_frame {scheduler after : PinnedScheduler n} {thread : ThreadId}
    {core : Option (Fin n)} (run : scheduler.setCore thread core = .ok after) :
    after.numThreads = scheduler.numThreads ∧
      after.runnable = scheduler.runnable ∧
      after.coreThreadRunning = scheduler.coreThreadRunning ∧
      after.threads = scheduler.threads := by
  unfold PinnedScheduler.setCore at run
  extract_lets left moved at run
  cases core with
  | none =>
      cases run
      exact ⟨rfl, rfl, rfl, rfl⟩
  | some core =>
      dsimp only at run
      split at run
      · cases run
        exact ⟨rfl, rfl, rfl, rfl⟩
      · cases run

theorem Keeps.setCore (fits : Fits tables) (thread : ThreadId)
    (core : Option (Fin n)) :
    Keeps tables (tables.lift (tables.scheduler.setCore thread core)) := by
  refine .lift fun run => ?_
  obtain ⟨count, runnable, running, threads⟩ := setCore_frame run
  refine fits.put _ count runnable (fun runs => ?_) threads
  rw [running] at runs
  exact fits.running runs

theorem Fits.vacateCore (fits : Fits tables) (thread : ThreadId) :
    Fits (tables.vacateCore thread) ∧ Same tables (tables.vacateCore thread) := by
  unfold SchedulerTables.vacateCore
  split
  · exact ⟨fits, .refl tables⟩
  · exact fits.put _ rfl rfl fits.running rfl

theorem AgainKeeps.moveThread (keeps : AgainKeeps again) (fits : Fits tables)
    (covered : tables.Covered) (thread : ThreadId) (core : Fin n) :
    Keeps tables (tables.moveThread again thread core time) := by
  obtain ⟨left, same⟩ := fits.vacateCore thread
  unfold SchedulerTables.moveThread
  refine Keeps.bind (Keeps.after ?_ same) fun awake _ =>
    Keeps.bind (Keeps.setCore awake thread (some core)) fun moved _ => ?_
  · unfold SchedulerTables.wakeUnscheduled
    split
    next waits =>
      obtain ⟨reached, born⟩ := left.started (.inr waits.2.1)
      exact keeps.resumeThread left reached born fun _ => same.covered covered
    · exact .of_ok left (.refl _)
  · split
    · exact .of_ok moved (.refl _)
    · exact .put moved rfl rfl moved.running rfl

/-! ## Rescheduling -/

theorem Fits.unschedule (fits : Fits tables) (core : Fin n) :
    Keeps tables (tables.unschedule time core) := by
  unfold SchedulerTables.unschedule
  cases runs : tables.scheduler.coreThreadRunning core with
  | none => exact .of_ok fits (.refl tables)
  | some thread =>
      dsimp only
      rw [fits.indexInfo (fits.running runs)]
      refine Keeps.lift fun run => ?_
      unfold PinnedScheduler.unschedule at run
      rw [runs] at run
      dsimp only at run
      rw [PinnedScheduler.moveThread_none] at run
      cases run
      exact fits.put _ rfl rfl fits.running rfl

theorem forget_frame (scheduler : PinnedScheduler n) (thread : ThreadId) :
    (scheduler.forget thread).numThreads = scheduler.numThreads ∧
      (scheduler.forget thread).runnable = scheduler.runnable ∧
      (scheduler.forget thread).threads = scheduler.threads ∧
      ∀ {core mover},
        (scheduler.forget thread).coreThreadRunning core = some mover →
          scheduler.coreThreadRunning core = some mover := by
  unfold PinnedScheduler.forget
  split
  · exact ⟨rfl, rfl, rfl, id⟩
  next old _ =>
    refine ⟨rfl, rfl, rfl, fun {core mover} runs => ?_⟩
    by_cases same : core = old
    · have empty : update scheduler.coreThreadRunning old none core =
          some mover := runs
      rw [same, update_self] at empty
      cases empty
    · exact (update_of_ne same _ _).symm.trans runs

theorem AgainKeeps.assign (keeps : AgainKeeps again) (fits : Fits tables)
    (covered : tables.Covered) {core : Fin n} {new : Option ThreadId}
    (born : ∀ thread ∈ new, thread < tables.scheduler.numThreads) :
    Keeps tables (tables.assign again time core new) := by
  have taken : ∀ {other mover}, update
      tables.scheduler.coreThreadRunning core new other = some mover →
        mover < tables.scheduler.numThreads := by
    intro other mover runs
    by_cases same : other = core
    · subst same
      rw [update_self] at runs
      exact born mover runs
    · exact fits.running ((update_of_ne same _ _).symm.trans runs)
  unfold SchedulerTables.assign
  cases new with
  | none => exact .put fits rfl rfl taken rfl
  | some thread =>
      dsimp only
      rw [fits.indexInfo (born thread rfl)]
      obtain ⟨count, runnable, threads, running⟩ := forget_frame
        { tables.scheduler with
          coreThreadRunning := update
            tables.scheduler.coreThreadRunning core (some thread) } thread
      dsimp only [bind, Except.bind]
      refine Keeps.after (keeps.moveThread ?_ ?_ thread core) ?_
      · refine And.left (fits.put _ ?_ ?_ ?_ ?_)
        · exact count
        · exact runnable
        · exact fun runs => taken (running runs)
        · exact threads
      · exact covered
      · exact ⟨rfl, rfl, count⟩

/-- The induction is on how deeply a reschedule is entered again. -/
theorem reschedule_keeps (depth : Nat) :
    AgainKeeps (n := n) (reschedule depth) := by
  induction depth with
  | zero =>
      intro time core tables fits covered
      refine ⟨fun run => ?_, fun fault => ?_⟩
      · cases run
      · cases fault
  | succ depth ih =>
      intro time core tables fits covered
      unfold reschedule
      split
      · exact .of_ok fits (.refl tables)
      · obtain ⟨new, selected, able⟩ := covered.select time core
        rw [selected]
        dsimp only [bind, Except.bind]
        split
        · exact .put fits rfl rfl fits.running rfl
        · refine Keeps.bind (fits.unschedule core) ?_
          intro stopped kept same
          have assigned : Keeps stopped
              (stopped.assign (reschedule depth) time core new) := by
            refine ih.assign kept (same.covered covered) ?_
            intro thread selected
            rw [same.numThreads]
            exact (fits.runnable (able thread selected).2.1).2
          exact assigned.bind fun placed _ =>
            .put placed rfl rfl placed.running rfl

theorem enough_keeps : AgainKeeps (n := n) enough :=
  reschedule_keeps (n + 1)

/-! ## Events -/

/-- The event reschedules a core, in the state that it finds. A thread that
exits runs on a core, which is rescheduled. -/
def Reschedules (tables : SchedulerTables n) : TableEvent n → Prop
  | .create _ => False
  | .start thread _ | .resume thread _ =>
      tables.scheduler.findFreeCoreForThread thread ≠ none
  | .stall thread reason _ =>
      reason ≠ .unscheduled ∧
        (tables.scheduler.threadInfo thread).coreRunning ≠ none
  | .exit _ _ _ => True
  | .yield thread _ =>
      (tables.scheduler.threadInfo thread).coreRunning ≠ none
  | .setAffinity caller change =>
      let changed :=
        tables.scheduler.changeAffinity change.thread change.mask
      change.thread < tables.scheduler.numThreads ∧
        if caller = some change.thread then
          (changed.threadInfo change.thread).coreRunning ≠ none
        else
          (changed.threadInfo change.thread).coreRunning = none ∧
            changed.runnable change.thread = true ∧
            changed.findFreeCoreForThread change.thread ≠ none
  | .periodic time =>
      ∃ core, tables.scheduler.quantumLeft core <
          time - tables.scheduler.lastPeriodic ∨
        tables.scheduler.coreThreadRunning core = none

/-- The vectors as they are when the event first reschedules. -/
def grown (tables : SchedulerTables n) : TableEvent n → SchedulerTables n
  | .start thread _ => tables.growRunnable thread
  | .setAffinity _ change => tables.reachInfo change.thread
  | _ => tables

/-- A thread that starts is reached by the second vector after it has grown
once, and whoever reschedules finds the first one no shorter. -/
def InRange (tables : SchedulerTables n) (event : TableEvent n) : Prop :=
  (∀ thread time, event = .start thread time →
    thread < (tables.growRunnable thread).runnableSize) ∧
  (tables.Reschedules event → (tables.grown event).Covered)

theorem fits_initial (n : Nat) (quantum : Time) : Fits (initial n quantum) where
  known := Nat.le_refl 0
  runnable := fun able => by cases able
  running := fun runs => by cases runs
  started := fun started => by
    rcases started with running | stalled
    · cases running
    · cases stalled
  starting := fun starting => by cases starting

theorem Fits.leaveCore (fits : Fits tables) {thread : ThreadId}
    (born : thread < tables.scheduler.numThreads)
    (covered : (tables.scheduler.threadInfo thread).coreRunning ≠ none →
      tables.Covered) :
    Keeps tables (tables.leaveCore thread time) := by
  unfold SchedulerTables.leaveCore
  rw [fits.indexInfo born]
  dsimp only [bind, Except.bind]
  split
  · exact .of_ok fits (.refl tables)
  next core place =>
    refine enough_keeps fits (covered ?_)
    rw [place]
    exact Option.some_ne_none core

theorem Fits.threadYield (fits : Fits tables) {thread : ThreadId}
    (born : thread < tables.scheduler.numThreads)
    (covered : (tables.scheduler.threadInfo thread).coreRunning ≠ none →
      tables.Covered) :
    Keeps tables (tables.threadYield thread time) := by
  unfold SchedulerTables.threadYield
  rw [fits.indexInfo born]
  dsimp only [bind, Except.bind]
  split
  · exact .of_ok fits (.refl tables)
  next core place =>
    have long : tables.Covered := by
      refine covered ?_
      rw [place]
      exact Option.some_ne_none core
    have emptied := fits.put
      { tables.scheduler with
        quantumLeft := update tables.scheduler.quantumLeft core 0 }
      rfl rfl fits.running rfl
    refine Keeps.bind ((enough_keeps emptied.1 long).after emptied.2) ?_
    intro yielded kept same
    have known : thread < yielded.scheduler.numThreads := by
      rw [same.numThreads]
      exact born
    rw [kept.indexInfo known]
    dsimp only
    split
    · exact .of_ok kept (.refl yielded)
    · exact enough_keeps.threadResume kept known fun _ => same.covered long

/-- What a new thread changes. -/
theorem createThread_frame {scheduler after : PinnedScheduler n}
    {initial : Fin n → Bool} (run : scheduler.createThread initial = .ok after) :
    after.numThreads = scheduler.numThreads + 1 ∧
      after.runnable = scheduler.runnable ∧
      (∀ {core thread}, after.coreThreadRunning core = some thread →
        scheduler.coreThreadRunning core = some thread ∨
          thread = scheduler.numThreads) ∧
      ∀ {thread}, after.status thread =
        if thread = scheduler.numThreads then .initializing
        else scheduler.status thread := by
  have others : ∀ {thread},
      (scheduler.setStatus scheduler.numThreads .initializing).status thread =
        if thread = scheduler.numThreads then .initializing
        else scheduler.status thread :=
    PinnedScheduler.status_setStatus _ _ _
  unfold PinnedScheduler.createThread at run
  extract_lets thread info pinned created at run
  split at run
  · cases run
    exact ⟨rfl, rfl, .inl, others⟩
  next core found =>
    obtain ⟨moved, sets, run⟩ := Library.bind_eq_ok.mp run
    cases run
    obtain ⟨count, runnable, running, threads⟩ := setCore_frame sets
    refine ⟨count, runnable, ?_, ?_⟩
    · intro other mover runs
      have runs := (congrFun running other).symm.trans runs
      by_cases same : other = core
      · have filled : update created.coreThreadRunning core
            (some thread) other = some mover := runs
        rw [same, update_self] at filled
        exact .inr (Option.some_inj.mp filled).symm
      · exact .inl ((update_of_ne same _ _).symm.trans runs)
    · intro other
      refine Eq.trans ?_ others
      exact congrArg (fun threads : ThreadManager =>
        (threads.state other).status) threads

theorem Fits.create (fits : Fits tables) (initial : Fin n → Bool) :
    Safe (tables.threadCreate initial) := by
  have reached : tables.scheduler.numThreads <
      (tables.growInfo tables.scheduler.numThreads).infoSize ∧
      (tables.growInfo tables.scheduler.numThreads).scheduler =
        tables.scheduler ∧
      (tables.growInfo tables.scheduler.numThreads).runnableSize =
        tables.runnableSize := by
    have known := fits.known
    unfold growInfo
    split
    · refine ⟨?_, rfl, rfl⟩
      change _ < tables.infoSize + 16
      omega
    · exact ⟨by omega, rfl, rfl⟩
  obtain ⟨known, same, also⟩ := reached
  unfold SchedulerTables.threadCreate
  dsimp only
  rw [show (tables.growInfo tables.scheduler.numThreads).indexInfo
    tables.scheduler.numThreads = .ok () from if_pos known, same]
  dsimp only [bind, Except.bind]
  cases run : tables.scheduler.createThread initial with
  | error halt =>
      refine ⟨fun equal => ?_, fun fault => ?_⟩
      · cases equal
      · cases fault
  | ok scheduler =>
      obtain ⟨count, runnable, running, statuses⟩ := createThread_frame run
      refine ⟨fun equal => ?_, fun fault => ?_⟩
      · cases equal
        have reached : ∀ {thread}, thread < tables.scheduler.numThreads →
            thread < scheduler.numThreads := by
          intro thread born
          omega
        refine ⟨?_, ?_, ?_, ?_, ?_⟩
        · exact count.le.trans known
        · intro thread able
          have able : scheduler.runnable thread = true := able
          rw [runnable] at able
          obtain ⟨inside, born⟩ := fits.runnable able
          exact ⟨also ▸ inside, reached born⟩
        · intro core thread runs
          rcases running runs with before | rfl
          · exact reached (fits.running before)
          · exact count.ge
        · intro thread started
          have started : scheduler.Started thread := started
          unfold PinnedScheduler.Started at started
          rw [statuses] at started
          split at started
          · rcases started with starting | starting
            · cases starting
            · cases starting
          · obtain ⟨inside, born⟩ := fits.started started
            exact ⟨also ▸ inside, reached born⟩
        · intro thread starting
          have starting : scheduler.status thread = .initializing := starting
          rw [statuses] at starting
          split at starting
          next mine =>
            rw [mine]
            exact count.ge
          · exact reached (fits.starting starting)
      · cases fault

theorem Fits.start (fits : Fits tables) {thread : ThreadId}
    (starting : tables.scheduler.status thread = .initializing)
    (reached : thread < (tables.growRunnable thread).runnableSize)
    (covered : tables.scheduler.findFreeCoreForThread thread ≠ none →
      (tables.growRunnable thread).Covered) :
    Safe (tables.onThreadStart thread time) := by
  have born := fits.starting starting
  have longer : Fits (tables.growRunnable thread) ∧
      (tables.growRunnable thread).scheduler = tables.scheduler := by
    unfold growRunnable
    split
    · refine ⟨{ fits with runnable := ?_, started := ?_ }, rfl⟩
      · intro other able
        obtain ⟨inside, known⟩ := fits.runnable able
        exact ⟨Nat.lt_add_right 16 inside, known⟩
      · intro other started
        obtain ⟨inside, known⟩ := fits.started started
        exact ⟨Nat.lt_add_right 16 inside, known⟩
    · exact ⟨fits, rfl⟩
  obtain ⟨grown, same⟩ := longer
  unfold SchedulerTables.onThreadStart
  dsimp only
  rw [indexRunnable_eq reached]
  generalize tables.growRunnable thread = after at grown same reached covered ⊢
  rw [← same] at covered born
  have begun : Fits (after.put
      { after.scheduler.setStatus thread .running with
        runnable := update after.scheduler.runnable thread true }) :=
    grown.alter reached born
      (fun mine able => (update_of_ne mine _ _).symm.trans able)
      fun mine => (PinnedScheduler.status_setStatus _ _ _).trans (if_neg mine)
  refine Keeps.safe
    (Keeps.bind (enough_keeps.threadResume begun born covered) ?_)
  intro started kept same
  have here : thread < started.runnableSize ∧
      thread < started.scheduler.numThreads := by
    rw [same.runnableSize, same.numThreads]
    exact ⟨reached, born⟩
  split
  · have restarted :
        Fits (started.put (started.scheduler.setStatus thread .running)) :=
      kept.alter here.1 here.2 (fun _ able => able)
        fun mine => (PinnedScheduler.status_setStatus _ _ _).trans (if_neg mine)
    refine .of_ok (And.left (restarted.put _ ?_ ?_ ?_ ?_)) ⟨rfl, rfl, rfl⟩
    · rfl
    · rfl
    · exact restarted.running
    · rfl
  · refine .of_ok (kept.alter here.1 here.2 ?_ ?_) ⟨rfl, rfl, rfl⟩
    · exact fun _ able => able
    · exact PinnedScheduler.status_stalled _

theorem Fits.stall (fits : Fits tables) {thread : ThreadId}
    (started : tables.scheduler.Started thread) {reason : StallType}
    (covered : reason ≠ .unscheduled →
      (tables.scheduler.threadInfo thread).coreRunning ≠ none →
        tables.Covered) :
    Keeps tables (tables.stallThread thread reason time) := by
  obtain ⟨reached, born⟩ := fits.started started
  have stalled : ∀ {runnable : ThreadId → Bool},
      (∀ {other}, other ≠ thread → runnable other = true →
        tables.scheduler.runnable other = true) →
      Fits (tables.put { tables.scheduler with
        threads := tables.scheduler.threads.stallThreadAsync thread reason
        runnable := runnable }) :=
    fun fewer => fits.alter reached born fewer
      (PinnedScheduler.status_stalled reason)
  unfold SchedulerTables.stallThread
  dsimp only
  split
  · exact .of_ok (stalled fun _ able => able) ⟨rfl, rfl, rfl⟩
  next different =>
    rw [indexRunnable_eq reached]
    dsimp only [bind, Except.bind]
    refine Keeps.after ((stalled ?_).leaveCore born (covered different))
      ⟨rfl, rfl, rfl⟩
    exact fun mine able => (update_of_ne mine _ _).symm.trans able

theorem Fits.resumeAll (fits : Fits tables) (covered : tables.Covered)
    {woken : List ThreadId}
    (started : ∀ waiter ∈ woken, waiter < tables.runnableSize ∧
      waiter < tables.scheduler.numThreads) :
    Keeps tables (woken.foldlM (fun tables waiter =>
      tables.resumeThread enough waiter time) tables) := by
  induction woken generalizing tables with
  | nil => exact .of_ok fits (.refl tables)
  | cons waiter rest ih =>
      obtain ⟨reached, born⟩ := started waiter List.mem_cons_self
      rw [List.foldlM_cons]
      refine Keeps.bind
        (enough_keeps.resumeThread fits reached born fun _ => covered) ?_
      intro middle kept same
      refine ih kept (same.covered covered) ?_
      intro other member
      rw [same.runnableSize, same.numThreads]
      exact started other (List.mem_cons_of_mem waiter member)

theorem Fits.exit (fits : Fits tables) (covered : tables.Covered)
    {thread : ThreadId}
    (running : tables.scheduler.status thread = .running)
    {woken : List ThreadId}
    (started : ∀ waiter ∈ woken, waiter ≠ thread ∧
      tables.scheduler.Started waiter) :
    Keeps tables (tables.onThreadExit thread time woken) := by
  obtain ⟨reached, born⟩ := fits.started (.inl running)
  have idle : Fits (tables.put (tables.scheduler.setStatus thread .idle)) :=
    fits.alter reached born (fun _ able => able)
      fun mine => (PinnedScheduler.status_setStatus _ _ _).trans (if_neg mine)
  unfold SchedulerTables.onThreadExit
  refine Keeps.after (Keeps.bind (idle.resumeAll covered fun waiter member =>
    fits.started (started waiter member).2) ?_) ⟨rfl, rfl, rfl⟩
  intro exited kept same
  obtain ⟨vacated, also⟩ := kept.vacateCore thread
  refine Keeps.after (Keeps.bind (Keeps.setCore vacated thread none) ?_) also
  intro left final still
  have sizes := (same.trans also).trans still
  have here : thread < left.runnableSize ∧
      thread < left.scheduler.numThreads := by
    rw [sizes.runnableSize, sizes.numThreads]
    exact ⟨reached, born⟩
  rw [indexRunnable_eq here.1]
  have quiet : Fits (left.put
      { left.scheduler with
        runnable := update left.scheduler.runnable thread false }) :=
    final.alter here.1 here.2
      (fun mine able => (update_of_ne mine _ _).symm.trans able)
      fun _ => rfl
  exact Keeps.after
    (quiet.leaveCore here.2 fun _ => sizes.covered covered) ⟨rfl, rfl, rfl⟩

theorem Fits.setAffinity (fits : Fits tables) (caller : Option ThreadId)
    (change : AffinityChange n)
    (covered : tables.Reschedules (.setAffinity caller change) →
      (tables.reachInfo change.thread).Covered) :
    Safe (tables.threadSetAffinity caller change) := by
  have longer : Fits (tables.reachInfo change.thread) ∧
      (tables.reachInfo change.thread).scheduler = tables.scheduler := by
    unfold reachInfo
    split
    next short =>
      refine ⟨{ fits with known := ?_ }, rfl⟩
      change tables.scheduler.numThreads ≤ change.thread + 16
      exact (fits.known.trans short).trans (Nat.le_add_right _ _)
    · exact ⟨fits, rfl⟩
  obtain ⟨grown, same⟩ := longer
  unfold SchedulerTables.threadSetAffinity
  dsimp only
  unfold Reschedules at covered
  dsimp only at covered
  generalize tables.reachInfo change.thread = after at grown same covered ⊢
  rw [← same] at covered
  have changed : Fits (after.put (after.scheduler.changeAffinity change.thread
      change.mask)) := by
    refine And.left (grown.put _ ?_ ?_ ?_ ?_)
    · rfl
    · rfl
    · exact grown.running
    · rfl
  split
  · exact (Keeps.of_ok changed (.refl _)).safe
  next known =>
    have born : change.thread < after.scheduler.numThreads :=
      Nat.lt_of_not_le known
    split
    next mine =>
      rw [if_pos mine] at covered
      exact (changed.threadYield born fun runs => covered ⟨born, runs⟩).safe
    next other =>
      rw [if_neg other] at covered
      have index : ∀ {result : Except Fault (SchedulerTables n)},
          Safe result → Safe ((after.put (after.scheduler.changeAffinity
            change.thread change.mask)).indexAffinity change.thread >>=
              fun _ => result) := by
        intro result safe
        unfold indexAffinity
        split
        · exact safe
        · refine ⟨fun run => ?_, fun fault => ?_⟩
          · cases run
          · cases fault
      split
      · split
        · exact index (Keeps.of_ok changed (.refl _)).safe
        · refine (Keeps.of_ok (And.left (changed.put _ ?_ ?_ ?_ ?_))
            (.refl _)).safe
          · rfl
          · rfl
          · exact changed.running
          · rfl
      next place =>
        refine index ?_
        split
        next able =>
          exact (enough_keeps.threadResume changed born fun free =>
            covered ⟨born, place, able, free⟩).safe
        · exact (Keeps.of_ok changed (.refl _)).safe

theorem Fits.tick (fits : Fits tables) (delta : Time) (core : Fin n)
    (covered : tables.Covered) : Keeps tables (tables.tick time delta core) := by
  unfold SchedulerTables.tick
  split
  · exact enough_keeps fits covered
  · exact .put fits rfl rfl fits.running rfl

theorem Fits.ticks (fits : Fits tables) (delta : Time) {cores : List (Fin n)}
    (distinct : cores.Nodup)
    (covered : tables.Covered ∨ ∀ core ∈ cores,
      ¬ (tables.scheduler.quantumLeft core < delta ∨
        tables.scheduler.coreThreadRunning core = none)) :
    Keeps tables (cores.foldlM (fun tables core => tables.tick time delta core)
      tables) := by
  induction cores generalizing tables with
  | nil => exact .of_ok fits (.refl tables)
  | cons core rest ih =>
      obtain ⟨apart, distinct⟩ := List.nodup_cons.mp distinct
      rw [List.foldlM_cons]
      rcases covered with long | busy
      · refine Keeps.bind (fits.tick delta core long) ?_
        intro middle kept same
        exact ih kept distinct (.inl (same.covered long))
      · have quiet : tables.tick time delta core = .ok (tables.put
            { tables.scheduler with
              quantumLeft := update tables.scheduler.quantumLeft core
                (tables.scheduler.quantumLeft core - delta) }) :=
          if_neg (busy core List.mem_cons_self)
        rw [quiet]
        have after := fits.put
          { tables.scheduler with
            quantumLeft := update tables.scheduler.quantumLeft core
              (tables.scheduler.quantumLeft core - delta) }
          rfl rfl fits.running rfl
        refine Keeps.after (ih after.1 distinct (.inr ?_))
          after.2
        intro other member
        have different : other ≠ core := fun same => apart (same ▸ member)
        change ¬ (update tables.scheduler.quantumLeft core _ other <
          delta ∨ tables.scheduler.coreThreadRunning other = none)
        rw [update_of_ne different]
        exact busy other (List.mem_cons_of_mem core member)

theorem Fits.periodic (fits : Fits tables)
    (covered : tables.Reschedules (.periodic time) → tables.Covered) :
    Keeps tables (tables.periodic time) := by
  have idle : tables.Covered ∨ ∀ core ∈ List.finRange n,
      ¬ (tables.scheduler.quantumLeft core <
          time - tables.scheduler.lastPeriodic ∨
        tables.scheduler.coreThreadRunning core = none) := by
    by_cases long : tables.Covered
    · exact .inl long
    · exact .inr fun core _ due => long (covered ⟨core, due⟩)
  exact Keeps.bind (fits.ticks _ (List.nodup_finRange n) idle)
    fun after _ => .put after rfl rfl after.running rfl

/-! ## Runs -/

/-- An event in range stays in range. -/
theorem Fits.step (fits : Fits tables) {event : TableEvent n}
    (inRange : tables.InRange event) : Safe (tables.step event) := by
  obtain ⟨reached, covered⟩ := inRange
  unfold SchedulerTables.step
  split
  next able =>
    cases event with
    | create initial => exact fits.create initial
    | start thread time =>
        exact fits.start able (reached thread time rfl) covered
    | stall thread reason time =>
        exact (fits.stall able fun different runs =>
          covered ⟨different, runs⟩).safe
    | resume thread time =>
        obtain ⟨inside, born⟩ := fits.started able
        exact (enough_keeps.resumeThread fits inside born covered).safe
    | exit thread time woken =>
        exact (fits.exit (covered trivial) able.1 able.2.2).safe
    | yield thread time => exact (fits.threadYield able covered).safe
    | setAffinity caller change => exact fits.setAffinity caller change covered
    | periodic time => exact (fits.periodic covered).safe
  · refine ⟨fun run => ?_, fun fault => ?_⟩
    · cases run
    · cases fault

/-- The tables after a run whose events were all in range. -/
inductive Reached (n : Nat) : SchedulerTables n → Prop where
  | initial (quantum : Time) : Reached n (initial n quantum)
  | step {tables next : SchedulerTables n} {event : TableEvent n} :
      Reached n tables → tables.InRange event → tables.step event = .ok next →
        Reached n next

theorem Reached.fits (reached : Reached n tables) : Fits tables := by
  induction reached with
  | initial quantum => exact fits_initial n quantum
  | step _ inRange stepped ih =>
      exact (ih.step inRange).fits stepped

/-- As long as the events are in range no index is out of range. -/
theorem tables_in_range (reached : Reached n tables) {event : TableEvent n}
    (inRange : tables.InRange event) :
    tables.step event ≠ .error .outOfRange :=
  (reached.fits.step inRange).inRange

/-- Thread 32 starts first: the second vector has only grown to 32 entries.
Or an affinity for thread 3 sets the first vector to 19 entries, and thread 16
grows the other to 32. -/
theorem tables_out_of_range :
    (List.replicate 33 (TableEvent.create fun _ => true) ++
        [TableEvent.start 32 0]).foldlM step (initial 1 100) =
      .error .outOfRange ∧
    (TableEvent.setAffinity none ⟨3, none, 0⟩ ::
        List.replicate 17 (TableEvent.create fun _ => true) ++
        [TableEvent.start 0 0, TableEvent.start 16 0,
          TableEvent.yield 0 0]).foldlM step (initial 1 100) =
      .error .outOfRange := by
  constructor
  · rfl
  · rfl

theorem reached_creates (free : Fin n → Bool) (count : Nat) :
    ∀ {tables next : SchedulerTables n}, Reached n tables →
      (List.replicate count (TableEvent.create free)).foldlM step tables =
        .ok next → Reached n next := by
  induction count with
  | zero =>
      intro tables next reached created
      cases created
      exact reached
  | succ count ih =>
      intro tables next reached created
      rw [List.replicate_succ, List.foldlM_cons] at created
      obtain ⟨middle, first, rest⟩ := Library.bind_eq_ok.mp created
      refine ih (.step reached ⟨?_, False.elim⟩ first) rest
      intro thread time same
      cases same

/-- Of 17 threads the first and the last start, with both vectors grown to 32
entries, and the first stalls. -/
theorem tables_in_range_start :
    ∃ tables, (List.replicate 17 (TableEvent.create fun _ => true) ++
        [TableEvent.start 0 0, TableEvent.start 16 5,
          TableEvent.stall 0 .futex 9]).foldlM step (initial 1 100) =
        .ok tables ∧
      tables.step (.resume 0 12) ≠ .error .outOfRange := by
  have created := reached_creates (fun _ => true) 17
    (.initial (n := 1) 100) rfl
  have first := @Reached.step 1 _ _ (.start 0 0) created
    ⟨fun thread time same => by cases same; decide,
      fun _ => (by decide : 16 ≤ 32)⟩ rfl
  have last := @Reached.step 1 _ _ (.start 16 5) first
    ⟨fun thread time same => by cases same; decide,
      fun _ => Nat.le_refl 32⟩ rfl
  have stalled := @Reached.step 1 _ _ (.stall 0 .futex 9) last
    ⟨nofun, fun _ => Nat.le_refl 32⟩ rfl
  exact ⟨_, rfl, tables_in_range stalled ⟨nofun, fun _ => Nat.le_refl 32⟩⟩

end SchedulerTables

end ChipletSniper.Threads
