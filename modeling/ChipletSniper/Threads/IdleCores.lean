import ChipletSniper.Threads.SchedulerEvents
import Mathlib.Algebra.GroupWithZero.Nat

/-!
# Threads that wait beside an idle core

A reschedule only looks at one core. What it does to the tables is said once,
and then which event leaves a runnable thread beside an idle core that it may
use.
-/

namespace ChipletSniper.Threads

open Function

namespace PinnedScheduler

variable {n : Nat} {scheduler next : PinnedScheduler n}
variable {pending : Finset (Fin n)}

/-- The thread is runnable and does not run. -/
def Waits (scheduler : PinnedScheduler n) (thread : ThreadId) : Prop :=
  scheduler.runnable thread = true ∧
    (scheduler.threadInfo thread).coreRunning = none

/-- The core is idle and the thread may use it. -/
def Usable (scheduler : PinnedScheduler n) (thread : ThreadId)
    (core : Fin n) : Prop :=
  (scheduler.threadInfo thread).affinity core = true ∧
    scheduler.coreThreadRunning core = none

instance (thread : ThreadId) : Decidable (scheduler.Waits thread) :=
  inferInstanceAs (Decidable (_ ∧ _))

instance (thread : ThreadId) (core : Fin n) :
    Decidable (scheduler.Usable thread core) :=
  inferInstanceAs (Decidable (_ ∧ _))

/-- Only threads of a kind wait beside a core that they may use. -/
def OnlyStranded (scheduler : PinnedScheduler n) (kind : ThreadId → Prop) :
    Prop :=
  ∀ thread core, scheduler.Waits thread → scheduler.Usable thread core →
    kind thread

/-- No thread waits beside a core that it may use. -/
def NoIdle (scheduler : PinnedScheduler n) : Prop :=
  scheduler.OnlyStranded fun _ => False

/-! ## The choice -/

/-- A thread comes before another one on a core: its score is greater, or it
is the same and the thread is found first. -/
def Precedes (scheduler : PinnedScheduler n) (time : Time)
    (first second : ThreadId) : Prop :=
  scheduler.score time second < scheduler.score time first ∨
    scheduler.score time second = scheduler.score time first ∧ first < second

instance (time : Time) (first second : ThreadId) :
    Decidable (scheduler.Precedes time first second) :=
  inferInstanceAs (Decidable (_ ∨ _))

/-- Times have 64 bits, so that no score is the smallest number. -/
theorem score_lower (time : Time) (thread : ThreadId) :
    -2 ^ 63 < scheduler.score time thread := by
  have small : ∀ time, (picoseconds time : Int) < 2 ^ 62 := by
    intro time
    have bound := Nat.mod_lt time (show 0 < 2 ^ 64 by decide)
    unfold picoseconds
    omega
  have exact : ∀ first second : Time,
      -2 ^ 63 < Int.bmod (picoseconds first - picoseconds second) (2 ^ 64) := by
    intro first second
    have := small first
    have := small second
    rw [Int.bmod_eq_of_le]
    · omega
    · omega
    · omega
  unfold score
  dsimp only
  split
  · exact exact _ _
  · exact exact _ _

/-- The best thread so far, with its score. -/
def Best (scheduler : PinnedScheduler n) (time : Time) (core : Fin n)
    (count : Nat) (best : Option ThreadId × Int) : Prop :=
  match best.1 with
  | none => best.2 = -2 ^ 63 ∧
      ∀ other < count, ¬ scheduler.Candidate core other
  | some thread => best.2 = scheduler.score time thread ∧
      thread < count ∧ scheduler.Candidate core thread ∧
        ∀ other < count, scheduler.Candidate core other →
          ¬ scheduler.Precedes time other thread

theorem best_select (scheduler : PinnedScheduler n) (time : Time)
    (core : Fin n) (count : Nat) :
    scheduler.Best time core count
      ((List.range count).foldl (fun best thread =>
        if scheduler.Candidate core thread ∧
            best.2 < scheduler.score time thread then
          (some thread, scheduler.score time thread)
        else
          best) ((none, -2 ^ 63) : Option ThreadId × Int)) := by
  induction count with
  | zero => exact ⟨rfl, fun other before => absurd before (Nat.not_lt_zero _)⟩
  | succ count ih =>
      rw [List.range_succ, List.foldl_append, List.foldl_cons, List.foldl_nil]
      generalize (List.range count).foldl _ _ = best at ih ⊢
      obtain ⟨chosen, score⟩ := best
      split
      next better =>
        obtain ⟨able, greater⟩ := better
        refine ⟨rfl, Nat.lt_succ_self count, able, ?_⟩
        intro other before candidate precedes
        rcases Nat.lt_succ_iff_lt_or_eq.mp before with earlier | rfl
        · cases chosen with
          | none => exact ih.2 other earlier candidate
          | some thread =>
              obtain ⟨rfl, _, _, first⟩ := ih
              refine first other earlier candidate (.inl ?_)
              rcases precedes with less | ⟨same, _⟩
              · exact greater.trans less
              · exact greater.trans_eq same
        · rcases precedes with less | ⟨_, less⟩
          · exact lt_irrefl _ less
          · exact lt_irrefl _ less
      next worse =>
        cases chosen with
        | none =>
            obtain ⟨rfl, nobody⟩ := ih
            refine ⟨rfl, fun other before candidate => ?_⟩
            rcases Nat.lt_succ_iff_lt_or_eq.mp before with earlier | rfl
            · exact nobody other earlier candidate
            · exact worse ⟨candidate, score_lower time other⟩
        | some thread =>
            obtain ⟨rfl, earlier, able, first⟩ := ih
            refine ⟨rfl, Nat.lt_succ_of_lt earlier, able, ?_⟩
            intro other before candidate precedes
            rcases Nat.lt_succ_iff_lt_or_eq.mp before with also | rfl
            · exact first other also candidate precedes
            · rcases precedes with less | ⟨_, less⟩
              · exact worse ⟨candidate, less⟩
              · exact absurd earlier (Nat.lt_asymm less)

/-- Whatever could run on the core exists. -/
theorem Inv.candidate_born (inv : Inv pending scheduler) {core : Fin n}
    {thread : ThreadId} (able : scheduler.Candidate core thread) :
    thread < scheduler.numThreads := by
  by_contra later
  have quiet := (inv.unborn (Nat.le_of_not_lt later)).2.1
  rw [able.2.1] at quiet
  cases quiet

theorem Inv.select_none (inv : Inv pending scheduler) {time : Time}
    {core : Fin n} (nobody : scheduler.select time core = none)
    (thread : ThreadId) : ¬ scheduler.Candidate core thread := by
  have best := best_select scheduler time core scheduler.numThreads
  unfold Best at best
  unfold select at nobody
  rw [nobody] at best
  exact fun able => best.2 thread (inv.candidate_born able) able

theorem Inv.select_some (inv : Inv pending scheduler) {time : Time}
    {core : Fin n} {thread : ThreadId}
    (selected : scheduler.select time core = some thread)
    {other : ThreadId} (able : scheduler.Candidate core other) :
    ¬ scheduler.Precedes time other thread := by
  have best := best_select scheduler time core scheduler.numThreads
  unfold Best at best
  unfold select at selected
  rw [selected] at best
  exact best.2.2.2 other (inv.candidate_born able) able

/-! ## What a reschedule does to the tables -/

/-- The tables are the same. -/
structure SameTables (before after : PinnedScheduler n) : Prop where
  running : after.coreThreadRunning = before.coreThreadRunning
  threadInfo : after.threadInfo = before.threadInfo
  runnable : after.runnable = before.runnable

theorem SameTables.refl (scheduler : PinnedScheduler n) :
    SameTables scheduler scheduler :=
  ⟨rfl, rfl, rfl⟩

theorem SameTables.trans {first middle last : PinnedScheduler n}
    (earlier : SameTables first middle) (later : SameTables middle last) :
    SameTables first last :=
  ⟨later.running.trans earlier.running,
    later.threadInfo.trans earlier.threadInfo,
    later.runnable.trans earlier.runnable⟩

/-- A free core that nobody could use is left as it is. -/
def LeavesIdle (again : Again n) : Prop :=
  ∀ {time core scheduler next},
    scheduler.coreThreadRunning core = none →
    (∀ thread, ¬ scheduler.Candidate core thread) →
    again time core scheduler = .ok next → SameTables scheduler next

theorem leavesIdle_reschedule (depth : Nat) :
    LeavesIdle (n := n) (reschedule depth) := by
  intro time core scheduler next free nobody run
  cases depth with
  | zero => cases run
  | succ depth =>
      unfold reschedule at run
      have same : scheduler.select time core = none := by
        cases selected : scheduler.select time core with
        | none => rfl
        | some thread =>
            exact absurd (candidate_of_select selected) (nobody thread)
      split at run
      next =>
        cases run
        exact .refl scheduler
      next =>
        rw [same, if_pos free] at run
        cases run
        exact ⟨rfl, rfl, rfl⟩

variable {again : Again n} {core : Fin n} {time : Time}

/-- No idle core that the thread may use has a candidate. -/
def Quiet (scheduler : PinnedScheduler n) (thread : ThreadId) : Prop :=
  ∀ core, scheduler.Usable thread core →
    ∀ other, ¬ scheduler.Candidate core other

theorem LeavesIdle.wakeUnscheduled (leaves : LeavesIdle again)
    {thread : ThreadId} (quiet : scheduler.Quiet thread)
    (able : scheduler.runnable thread = true)
    (run : scheduler.wakeUnscheduled again thread time = .ok next) :
    SameTables scheduler next := by
  have awakened : SameTables scheduler (scheduler.awaken thread time) :=
    ⟨rfl, rfl, update_eq_self_iff.mpr able.symm⟩
  unfold PinnedScheduler.wakeUnscheduled PinnedScheduler.resumeThread
    PinnedScheduler.threadResume at run
  split at run
  · split at run
    · cases run
      exact awakened
    next core found =>
      refine awakened.trans (leaves (findFreeCoreForThread_some found).2 ?_ run)
      intro other candidate
      refine quiet core (findFreeCoreForThread_some found) other ?_
      unfold Candidate at candidate ⊢
      rw [awakened.threadInfo, awakened.runnable] at candidate
      exact candidate
  · cases run
    exact .refl scheduler

theorem setCore_tables {thread : ThreadId} {core : Option (Fin n)}
    (run : scheduler.setCore thread core = .ok next) :
    SameTables scheduler next := by
  unfold setCore at run
  extract_lets left moved at run
  cases core with
  | none =>
      cases run
      exact ⟨rfl, rfl, rfl⟩
  | some core =>
      dsimp only at run
      split at run
      · cases run
        exact ⟨rfl, rfl, rfl⟩
      · cases run

theorem LeavesIdle.moveThread (leaves : LeavesIdle again) {thread : ThreadId}
    (quiet : scheduler.Quiet thread)
    (able : scheduler.runnable thread = true)
    (run : scheduler.moveThread again thread (some core) time = .ok next) :
    SameTables scheduler next := by
  unfold PinnedScheduler.moveThread at run
  dsimp only at run
  have moved : ∀ idle : PinnedScheduler n, SameTables scheduler idle →
      (idle.wakeUnscheduled again thread time).bind (fun awake =>
        (awake.setCore thread (some core)).bind fun moved =>
          if moved.status thread = .stalled then .ok moved
          else .ok { moved with
            coreState := update moved.coreState core .running }) =
        .ok next → SameTables scheduler next := by
    intro idle same run
    obtain ⟨awake, wakes, run⟩ := Library.bind_eq_ok.mp run
    obtain ⟨moved, sets, run⟩ := Library.bind_eq_ok.mp run
    have woken : SameTables idle awake := by
      refine leaves.wakeUnscheduled ?_ ?_ wakes
      · intro other usable
        unfold Usable Candidate at *
        rw [same.threadInfo, same.running] at usable
        rw [same.threadInfo, same.runnable]
        exact quiet other usable
      · rw [same.runnable]
        exact able
    have final := (same.trans woken).trans (setCore_tables sets)
    split at run
    · cases run
      exact final
    · cases run
      exact final.trans ⟨rfl, rfl, rfl⟩
  cases placed : scheduler.threadCore thread with
  | none =>
      rw [placed] at run
      exact moved scheduler (.refl scheduler) run
  | some old =>
      rw [placed] at run
      exact moved
        { scheduler with
          coreState := update scheduler.coreState old .idle }
        ⟨rfl, rfl, rfl⟩ run

/-- A core was given to a thread, or to none. -/
structure Replaces (core : Fin n) (new : Option ThreadId)
    (before after : PinnedScheduler n) : Prop where
  running : after.coreThreadRunning =
    update before.coreThreadRunning core new
  coreRunning : ∀ thread, (after.threadInfo thread).coreRunning =
    if new = some thread then some core
    else if before.coreThreadRunning core = some thread then none
    else (before.threadInfo thread).coreRunning
  affinity : ∀ thread, (after.threadInfo thread).affinity =
    (before.threadInfo thread).affinity
  runnable : after.runnable = before.runnable

/-- A thread without a place is put on the core, whose thread has lost its
place. -/
theorem LeavesIdle.assign (leaves : LeavesIdle again) {new : Option ThreadId}
    (waits : ∀ thread ∈ new, scheduler.Waits thread)
    (quiet : ∀ thread ∈ new, ∀ {placed : PinnedScheduler n},
      Replaces core new scheduler placed → placed.Quiet thread)
    (alone : ∀ thread ∈ scheduler.coreThreadRunning core,
      (scheduler.threadInfo thread).coreRunning = none)
    (run : scheduler.assign again time core new = .ok next) :
    Replaces core new scheduler next := by
  have others : ∀ thread, (scheduler.threadInfo thread).coreRunning =
      if scheduler.coreThreadRunning core = some thread then none
      else (scheduler.threadInfo thread).coreRunning := by
    intro thread
    split
    next runs => exact alone thread runs
    · rfl
  unfold PinnedScheduler.assign at run
  cases new with
  | none =>
      cases run
      refine ⟨rfl, fun thread => ?_, fun _ => rfl, rfl⟩
      rw [if_neg (by simp)]
      exact others thread
  | some thread =>
      obtain ⟨able, unplaced⟩ := waits thread rfl
      dsimp only [forget] at run
      rw [unplaced] at run
      have placed : Replaces core (some thread) scheduler
          { scheduler with
            coreThreadRunning := update scheduler.coreThreadRunning
              core (some thread)
            threadInfo := update scheduler.threadInfo thread
              { scheduler.threadInfo thread with
                coreRunning := some core
                lastScheduledIn := time }
            placements := scheduler.placements ++ [⟨thread, core,
              (scheduler.threadInfo thread).affinity core⟩] } := by
        refine ⟨rfl, ?_, ?_, rfl⟩
        · intro other
          by_cases mine : other = thread
          · subst mine
            simp
          · have different : some thread ≠ some other := by
              simpa using Ne.symm mine
            simp only [update_of_ne mine]
            rw [if_neg different]
            exact others other
        · intro other
          by_cases mine : other = thread
          · subst mine
            simp
          · simp [mine]
      have same := leaves.moveThread (quiet thread rfl placed) able run
      exact ⟨same.running.trans placed.running,
        fun other => by rw [same.threadInfo]; exact placed.coreRunning other,
        fun other => by rw [same.threadInfo]; exact placed.affinity other,
        same.runnable.trans placed.runnable⟩

/-- The running thread loses its place. -/
theorem unschedule_tables
    (run : scheduler.unschedule again time core = .ok next) :
    next.coreThreadRunning = scheduler.coreThreadRunning ∧
      next.runnable = scheduler.runnable ∧
      ∀ thread,
        (next.threadInfo thread).affinity =
          (scheduler.threadInfo thread).affinity ∧
        (next.threadInfo thread).coreRunning =
          if scheduler.coreThreadRunning core = some thread then none
          else (scheduler.threadInfo thread).coreRunning := by
  unfold unschedule at run
  cases runs : scheduler.coreThreadRunning core with
  | none =>
      rw [runs] at run
      cases run
      exact ⟨rfl, rfl, fun thread => ⟨rfl, (if_neg (by simp)).symm⟩⟩
  | some thread =>
      rw [runs] at run
      dsimp only at run
      rw [moveThread_none] at run
      cases run
      refine ⟨rfl, rfl, fun other => ?_⟩
      change (update scheduler.threadInfo thread _ other).affinity = _ ∧
        (update scheduler.threadInfo thread _ other).coreRunning = _
      by_cases mine : other = thread
      · subst mine
        simp
      · have different : some thread ≠ some other := by
          simpa using Ne.symm mine
        simp [mine, different]

theorem Replaces.of_unscheduled {stopped : PinnedScheduler n}
    {new : Option ThreadId}
    (stops : scheduler.unschedule again time core = .ok stopped)
    (replaces : Replaces core new stopped next) :
    Replaces core new scheduler next := by
  obtain ⟨running, runnable, infos⟩ := unschedule_tables stops
  refine ⟨?_, ?_, ?_, replaces.runnable.trans runnable⟩
  · rw [replaces.running, running]
  · intro thread
    rw [replaces.coreRunning, running, (infos thread).2]
    split
    · rfl
    · split
      · rfl
      · rfl
  · intro thread
    rw [replaces.affinity, (infos thread).1]

/-- The thread that a reschedule leaves on the core. -/
def chosen (scheduler : PinnedScheduler n) (time : Time) (core : Fin n) :
    Option ThreadId :=
  if scheduler.Starting core then scheduler.coreThreadRunning core
  else scheduler.select time core

/-- A reschedule gives the core to the thread that it chooses, if waking that
thread up has no further effect. -/
theorem Inv.replaces (inv : Inv pending scheduler)
    (quiet : ∀ thread ∈ scheduler.select time core,
      ∀ {placed : PinnedScheduler n},
        scheduler.coreThreadRunning core ≠ some thread →
        Replaces core (some thread) scheduler placed → placed.Quiet thread)
    (run : enough time core scheduler = .ok next) :
    Replaces core (scheduler.chosen time core) scheduler next := by
  have unchanged : ∀ {new : Option ThreadId},
      new = scheduler.coreThreadRunning core →
        Replaces core new scheduler scheduler := by
    rintro _ rfl
    refine ⟨(update_eq_self _ _).symm, ?_, fun _ => rfl, rfl⟩
    intro thread
    split
    next runs => exact inv.agree.mp runs
    next apart => rfl
  unfold enough reschedule at run
  unfold chosen
  split at run
  next starting =>
    cases run
    rw [if_pos starting]
    exact unchanged rfl
  next ready =>
    rw [if_neg ready]
    split at run
    next same =>
      cases run
      exact { unchanged same.symm with }
    next different =>
      obtain ⟨stopped, stops, run⟩ := Library.bind_eq_ok.mp run
      obtain ⟨placed, assigned, run⟩ := Library.bind_eq_ok.mp run
      cases run
      obtain ⟨running, runnable, infos⟩ := unschedule_tables stops
      have replaces : Replaces core (scheduler.select time core) stopped
          placed := by
        refine LeavesIdle.assign (leavesIdle_reschedule n) ?_ ?_ ?_ assigned
        · intro thread selected
          obtain ⟨affine, able, elsewhere⟩ := candidate_of_select selected
          have apart : scheduler.coreThreadRunning core ≠ some thread :=
            fun runs => different (runs.trans (Eq.symm selected))
          refine ⟨runnable ▸ able, ?_⟩
          rw [(infos thread).2, if_neg apart]
          exact elsewhere.resolve_right fun runs =>
            apart (inv.agree.mpr runs)
        · intro thread selected placed replaces
          have apart : scheduler.coreThreadRunning core ≠ some thread :=
            fun runs => different (runs.trans (Eq.symm selected))
          refine quiet thread selected apart ?_
          have whole := Replaces.of_unscheduled stops replaces
          rw [Option.mem_def.mp selected] at whole
          exact whole
        · intro thread runs
          rw [running] at runs
          exact (infos thread).2.trans (if_pos runs)
      exact { Replaces.of_unscheduled stops replaces with }

/-! ## Placing a thread on an idle core -/

/-- A thread that can be put on a free core waits. -/
theorem Inv.waits_of_candidate (inv : Inv pending scheduler)
    {thread : ThreadId} (able : scheduler.Candidate core thread)
    (apart : scheduler.coreThreadRunning core ≠ some thread) :
    scheduler.Waits thread :=
  ⟨able.2.1, able.2.2.resolve_right fun runs => apart (inv.agree.mpr runs)⟩

/-- Who waits beside an idle core after a core was given to a thread. -/
theorem Replaces.stranded_iff {new : Option ThreadId}
    (replaces : Replaces core new scheduler next) {thread : ThreadId}
    {other : Fin n} :
    next.Waits thread ∧ next.Usable thread other ↔
      new ≠ some thread ∧ scheduler.runnable thread = true ∧
        (scheduler.coreThreadRunning core = some thread ∨
          (scheduler.threadInfo thread).coreRunning = none) ∧
        (scheduler.threadInfo thread).affinity other = true ∧
        (other = core ∧ new = none ∨
          other ≠ core ∧ scheduler.coreThreadRunning other = none) := by
  have place : (next.threadInfo thread).coreRunning = none ↔
      new ≠ some thread ∧ (scheduler.coreThreadRunning core = some thread ∨
        (scheduler.threadInfo thread).coreRunning = none) := by
    rw [replaces.coreRunning]
    split
    next same => simp [same]
    next different =>
      split
      next runs => simp [different, runs]
      next apart => simp [different, apart]
  have free : next.coreThreadRunning other = none ↔
      other = core ∧ new = none ∨
        other ≠ core ∧ scheduler.coreThreadRunning other = none := by
    rw [replaces.running]
    by_cases same : other = core
    · subst same
      simp
    · simp [same]
  unfold Waits Usable
  rw [place, free, replaces.runnable, replaces.affinity]
  constructor
  · rintro ⟨⟨able, apart, unplaced⟩, allowed, idle⟩
    exact ⟨apart, able, unplaced, allowed, idle⟩
  · rintro ⟨apart, able, unplaced, allowed, idle⟩
    exact ⟨⟨able, apart, unplaced⟩, allowed, idle⟩

/-- When only one thread waits beside an idle core, it is placed there. -/
theorem Inv.threadResume_noIdle (inv : Inv pending scheduler)
    {thread : ThreadId} (only : scheduler.OnlyStranded (· = thread))
    (run : scheduler.threadResume enough thread time = .ok next) :
    next.NoIdle := by
  unfold PinnedScheduler.threadResume at run
  split at run
  next nowhere =>
    cases run
    intro other core waits usable
    obtain rfl := only _ _ waits usable
    have member := List.find?_eq_none.mp nowhere core (List.mem_finRange core)
    rw [usable.1, usable.2] at member
    exact member rfl
  next core found =>
    obtain ⟨affine, free⟩ := findFreeCoreForThread_some found
    have nobody : ∀ other, scheduler.coreThreadRunning core ≠ some other := by
      intro other
      rw [free]
      exact (Option.some_ne_none other).symm
    have mine : ∀ other, scheduler.Candidate core other → other = thread :=
      fun other able => only _ _ (inv.waits_of_candidate able (nobody other))
        ⟨able.1, free⟩
    have ready : ¬ scheduler.Starting core := by
      rintro ⟨other, runs, _⟩
      exact nobody other runs
    have replaces := inv.replaces ?_ run
    · rw [chosen, if_neg ready] at replaces
      intro other idle waits usable
      obtain ⟨apart, able, place, allowed, idle⟩ :=
        replaces.stranded_iff.mp ⟨waits, usable⟩
      have unplaced := place.resolve_left (nobody other)
      rcases idle with ⟨rfl, nothing⟩ | ⟨different, also⟩
      · exact inv.select_none nothing other ⟨allowed, able, .inl unplaced⟩
      · obtain rfl := only _ _ ⟨able, unplaced⟩ ⟨allowed, also⟩
        cases selected : scheduler.select time core with
        | none =>
            exact inv.select_none selected other ⟨affine, able, .inl unplaced⟩
        | some new =>
            obtain rfl := mine new (candidate_of_select selected)
            exact apart selected
    · intro new selected placed _ replaces idle usable other able
      obtain rfl := mine new (candidate_of_select selected)
      have taken : idle ≠ core := by
        rintro rfl
        have filled := usable.2
        rw [replaces.running, update_self] at filled
        cases filled
      have also : scheduler.coreThreadRunning idle = none := by
        have empty := usable.2
        rwa [replaces.running, update_of_ne taken] at empty
      obtain ⟨allowed, runnable, place⟩ := able
      rw [replaces.affinity] at allowed
      rw [replaces.runnable] at runnable
      rw [replaces.coreRunning, if_neg (nobody other)] at place
      by_cases same : other = new
      · rw [if_pos (congrArg some same.symm)] at place
        rcases place with nowhere | here
        · cases nowhere
        · exact taken (Option.some_inj.mp here).symm
      · rw [if_neg fun equal => same (Option.some_inj.mp equal).symm] at place
        rcases place with unplaced | here
        · exact same (only _ _ ⟨runnable, unplaced⟩ ⟨allowed, also⟩)
        · rw [inv.agree.mpr here] at also
          cases also

/-- The thread of the core is displaced, and there is another core for it. -/
theorem Inv.stranded_of_noIdle (inv : Inv pending scheduler)
    (noIdle : scheduler.NoIdle)
    (run : enough time core scheduler = .ok next) :
    Replaces core (scheduler.chosen time core) scheduler next ∧
      ∀ {thread other}, next.Waits thread ∧ next.Usable thread other ↔
        scheduler.chosen time core ≠ some thread ∧
          scheduler.coreThreadRunning core = some thread ∧
          scheduler.runnable thread = true ∧
          scheduler.Usable thread other := by
  have replaces := inv.replaces ?_ run
  · refine ⟨replaces, ?_⟩
    intro thread other
    rw [replaces.stranded_iff]
    constructor
    · rintro ⟨apart, able, place, allowed, idle⟩
      have unselected : scheduler.chosen time core = none →
          ¬ scheduler.Candidate core thread := by
        intro nothing
        unfold chosen at nothing
        split at nothing
        next starting =>
          obtain ⟨mover, runs, _⟩ := starting
          rw [nothing] at runs
          cases runs
        next => exact inv.select_none nothing thread
      rcases idle with ⟨rfl, nothing⟩ | ⟨different, free⟩
      · refine absurd ⟨allowed, able, ?_⟩ (unselected nothing)
        exact place.symm.imp id fun runs => inv.agree.mp runs
      · refine ⟨apart, place.resolve_right fun unplaced => ?_, able, allowed,
          free⟩
        exact noIdle _ _ ⟨able, unplaced⟩ ⟨allowed, free⟩
    · rintro ⟨apart, runs, able, allowed, free⟩
      refine ⟨apart, able, .inl runs, allowed, .inr ⟨?_, free⟩⟩
      rintro rfl
      rw [runs] at free
      cases free
  · intro new selected placed apart replaces idle usable
    have waits := inv.waits_of_candidate (candidate_of_select selected) apart
    have taken : idle ≠ core := by
      rintro rfl
      have filled := usable.2
      rw [replaces.running, update_self] at filled
      cases filled
    obtain ⟨allowed, empty⟩ := usable
    rw [replaces.affinity] at allowed
    rw [replaces.running, update_of_ne taken] at empty
    exact (noIdle _ _ waits ⟨allowed, empty⟩).elim

/-! ## Yielding -/

/-- The running thread of a core has to make room for another one. -/
def Displaced (scheduler : PinnedScheduler n) (time : Time) (core : Fin n)
    (thread : ThreadId) : Prop :=
  ¬ scheduler.Starting core ∧ ∃ other, scheduler.Candidate core other ∧
    scheduler.Precedes time other thread

/-- A thread that yields is displaced on a core that it may still use, and
could run on another one that is idle. -/
def YieldStrands (scheduler : PinnedScheduler n) (thread : ThreadId)
    (time : Time) : Prop :=
  ∃ core, (scheduler.threadInfo thread).coreRunning = some core ∧
    scheduler.runnable thread = true ∧
    (scheduler.threadInfo thread).affinity core = true ∧
    scheduler.Displaced time core thread ∧
    ∃ idle, scheduler.Usable thread idle

theorem Precedes.total {first second : ThreadId} (different : first ≠ second)
    (later : ¬ scheduler.Precedes time first second) :
    scheduler.Precedes time second first := by
  unfold Precedes at *
  rw [not_or, not_and, not_lt] at later
  rcases lt_or_eq_of_le later.1 with less | same
  · exact .inl less
  · exact .inr ⟨same, lt_of_le_of_ne (Nat.le_of_not_lt (later.2 same.symm))
      different.symm⟩

/-- A runnable thread of its core keeps it unless another one comes first. -/
theorem Inv.chosen_ne_iff (inv : Inv pending scheduler) {thread : ThreadId}
    (runs : scheduler.coreThreadRunning core = some thread)
    (able : scheduler.Candidate core thread) :
    scheduler.chosen time core ≠ some thread ↔
      scheduler.Displaced time core thread := by
  unfold chosen Displaced
  by_cases starting : scheduler.Starting core
  · simp [starting, runs]
  · rw [if_neg starting]
    refine Iff.trans ?_ (and_iff_right starting).symm
    constructor
    · intro apart
      cases selected : scheduler.select time core with
      | none => exact absurd able (inv.select_none selected thread)
      | some other =>
          have different : thread ≠ other := by
            rintro rfl
            exact apart selected
          exact ⟨other, candidate_of_select selected,
            Precedes.total different (inv.select_some selected able)⟩
    · rintro ⟨other, candidate, precedes⟩ selected
      exact inv.select_some selected candidate precedes

/-- A yield strands nobody but the thread that yields. -/
theorem Inv.threadYield_noIdle_iff (inv : Inv ∅ scheduler)
    (noIdle : scheduler.NoIdle) {thread : ThreadId}
    (run : scheduler.threadYield thread time = .ok next) :
    next.NoIdle ↔ ¬ scheduler.YieldStrands thread time := by
  unfold PinnedScheduler.threadYield at run
  cases place : (scheduler.threadInfo thread).coreRunning with
  | none =>
      rw [place] at run
      cases run
      refine iff_of_true noIdle ?_
      rintro ⟨core, here, _⟩
      rw [place] at here
      cases here
  | some core =>
      rw [place] at run
      obtain ⟨yielded, again, run⟩ := Library.bind_eq_ok.mp run
      have runs := inv.agree.mpr place
      have emptied : Inv ∅ { scheduler with
          quantumLeft := update scheduler.quantumLeft core 0 } :=
        { inv with }
      obtain ⟨replaces, stranded⟩ := emptied.stranded_of_noIdle noIdle again
      have only : yielded.OnlyStranded (· = thread) := by
        intro other idle waits usable
        have also := (stranded.mp ⟨waits, usable⟩).2.1
        exact Option.some_inj.mp (also.symm.trans runs)
      split at run
      next allowed =>
        cases run
        rw [replaces.affinity] at allowed
        constructor
        · rintro settled ⟨other, here, able, _, displaced, idle, usable⟩
          rw [place] at here
          obtain rfl := Option.some_inj.mp here
          have apart := (emptied.chosen_ne_iff runs
            ⟨allowed, able, .inr place⟩).mpr displaced
          have both := stranded.mpr ⟨apart, runs, able, usable⟩
          exact settled _ _ both.1 both.2
        · intro spared other idle waits usable
          obtain rfl := only _ _ waits usable
          obtain ⟨apart, _, able, free⟩ := stranded.mp ⟨waits, usable⟩
          have displaced := (emptied.chosen_ne_iff runs
            ⟨allowed, able, .inr place⟩).mp apart
          exact spared ⟨core, place, able, allowed, displaced, idle, free⟩
      next lost =>
        obtain ⟨_, same, kept, _⟩ := emptied.settled core time
        rw [again] at same
        cases same
        refine iff_of_true (kept.threadResume_noIdle only run) ?_
        rintro ⟨other, here, _, allowed, _⟩
        rw [place] at here
        obtain rfl := Option.some_inj.mp here
        rw [replaces.affinity] at lost
        exact lost allowed

/-! ## Changing an affinity -/

theorem onlyStranded_changeAffinity (noIdle : scheduler.NoIdle)
    (thread : ThreadId) (mask : Option (Fin n → Bool)) :
    (scheduler.changeAffinity thread mask).OnlyStranded (· = thread) := by
  intro other core waits usable
  by_contra different
  have same : (scheduler.changeAffinity thread mask).threadInfo other =
      scheduler.threadInfo other :=
    update_of_ne different _ _
  unfold Waits at waits
  unfold Usable at usable
  rw [same] at waits usable
  exact noIdle _ _ waits usable

/-- A thread that another one calls for does not end up beside an idle
core. -/
theorem Inv.threadSetAffinity_noIdle (inv : Inv pending scheduler)
    (noIdle : scheduler.NoIdle) {change : AffinityChange n}
    (run : scheduler.threadSetAffinity none change = .ok next) :
    next.NoIdle := by
  have only := onlyStranded_changeAffinity noIdle change.thread change.mask
  have changed := inv.changeAffinity change.thread change.mask
  have settled : ∀ {after : PinnedScheduler n},
      after.OnlyStranded (· = change.thread) →
      ¬ after.Waits change.thread → after.NoIdle := by
    intro after only busy other core waits usable
    obtain rfl := only _ _ waits usable
    exact busy waits
  unfold PinnedScheduler.threadSetAffinity at run
  dsimp only at run
  split at run
  next later =>
    cases run
    refine settled only fun waits => ?_
    have quiet := (changed.unborn later).2.1
    rw [waits.1] at quiet
    cases quiet
  · rw [if_neg (Option.some_ne_none change.thread).symm] at run
    split at run
    next core here =>
      have busy : ¬ (scheduler.changeAffinity change.thread change.mask).Waits
          change.thread := by
        intro waits
        rw [waits.2] at here
        cases here
      split at run
      · cases run
        exact settled only busy
      · cases run
        exact settled only busy
    next nowhere =>
      split at run
      · exact changed.threadResume_noIdle only run
      next stalled =>
        cases run
        exact settled only fun waits => stalled waits.1

theorem Inv.changeAffinities_noIdle (inv : Inv pending scheduler)
    (noIdle : scheduler.NoIdle) {changes : List (AffinityChange n)}
    (run : scheduler.changeAffinities changes = .ok next) : next.NoIdle := by
  induction changes generalizing scheduler with
  | nil =>
      cases run
      exact noIdle
  | cons change rest ih =>
      obtain ⟨middle, first, run⟩ := Library.bind_eq_ok.mp run
      obtain ⟨_, same, kept, _⟩ := inv.threadSetAffinity change
      obtain rfl := Except.ok.inj (first.symm.trans same)
      exact ih kept (inv.threadSetAffinity_noIdle noIdle first)
        run

/-! ## Events -/

/-- Only a thread that becomes runnable can wait beside an idle core. -/
theorem NoIdle.wake (noIdle : scheduler.NoIdle) (thread : ThreadId)
    (threads : ThreadManager) :
    { scheduler with
      threads := threads
      runnable := update scheduler.runnable thread true
      }.OnlyStranded (· = thread) := by
  intro other core waits usable
  by_contra different
  refine noIdle other core ⟨?_, waits.2⟩ usable
  exact (update_of_ne different _ _).symm.trans waits.1

theorem NoIdle.stop (noIdle : scheduler.NoIdle) (thread : ThreadId) :
    { scheduler with
      runnable := update scheduler.runnable thread false
      }.NoIdle := by
  intro other core waits usable
  refine noIdle other core ⟨?_, waits.2⟩ usable
  by_cases mine : other = thread
  · subst mine
    have stopped :
        update scheduler.runnable other false other = true := waits.1
    rw [update_self] at stopped
    cases stopped
  · exact (update_of_ne mine _ _).symm.trans waits.1

theorem Inv.start_noIdle (inv : Inv ∅ scheduler) (noIdle : scheduler.NoIdle)
    {thread : ThreadId}
    (starting : scheduler.status thread = .initializing)
    (run : scheduler.onThreadStart thread time = .ok next) : next.NoIdle := by
  obtain ⟨started, resumes, run⟩ := Library.bind_eq_ok.mp run
  have placed : started.NoIdle :=
    (inv.begun starting).threadResume_noIdle (noIdle.wake thread _) resumes
  split at run
  · cases run
    exact placed
  · cases run
    exact placed

theorem Inv.resume_noIdle (inv : Inv ∅ scheduler) (noIdle : scheduler.NoIdle)
    {thread : ThreadId} (started : scheduler.Started thread)
    (run : scheduler.resumeThread enough thread time = .ok next) :
    next.NoIdle :=
  (inv.awaken started time).threadResume_noIdle (noIdle.wake thread _) run

/-- A thread that cannot run leaves no idle core beside another one. -/
theorem Inv.leaveCore_noIdle (inv : Inv pending scheduler)
    (noIdle : scheduler.NoIdle) {thread : ThreadId}
    (stopped : scheduler.runnable thread = false)
    (run : scheduler.leaveCore thread time = .ok next) : next.NoIdle := by
  unfold PinnedScheduler.leaveCore at run
  cases place : (scheduler.threadInfo thread).coreRunning with
  | none =>
      rw [place] at run
      cases run
      exact noIdle
  | some core =>
      rw [place] at run
      intro other idle waits usable
      obtain ⟨_, stranded⟩ := inv.stranded_of_noIdle noIdle run
      obtain ⟨_, runs, able, _⟩ := stranded.mp ⟨waits, usable⟩
      rw [inv.agree.mpr place] at runs
      obtain rfl := Option.some_inj.mp runs
      rw [stopped] at able
      cases able

theorem Inv.stall_noIdle (inv : Inv ∅ scheduler) (noIdle : scheduler.NoIdle)
    {thread : ThreadId} (started : scheduler.Started thread)
    {reason : StallType} {changes : List (AffinityChange n)}
    (run : scheduler.stallThread thread reason time changes = .ok next) :
    next.NoIdle := by
  unfold PinnedScheduler.stallThread at run
  dsimp only at run
  split at run
  · cases run
    exact noIdle
  · obtain ⟨changed, first, run⟩ := Library.bind_eq_ok.mp run
    have quiet := inv.stalled started reason
      (update scheduler.runnable thread false)
      fun other different => update_of_ne different _ _
    obtain ⟨_, same, kept, _, still⟩ := quiet.changeAffinities changes
    obtain rfl := Except.ok.inj (first.symm.trans same)
    refine kept.leaveCore_noIdle
      (quiet.changeAffinities_noIdle (noIdle.stop thread) first) ?_ run
    rw [still]
    exact update_self _ _ _

theorem Inv.resumeAll_noIdle (inv : Inv ∅ scheduler)
    (noIdle : scheduler.NoIdle) {woken : List ThreadId}
    (started : ∀ waiter ∈ woken, scheduler.Started waiter)
    (run : woken.foldlM (fun scheduler waiter =>
      scheduler.resumeThread enough waiter time) scheduler = .ok next) :
    next.NoIdle := by
  induction woken generalizing scheduler with
  | nil =>
      cases run
      exact noIdle
  | cons waiter rest ih =>
      obtain ⟨middle, first, run⟩ := Library.bind_eq_ok.mp run
      have awake := started waiter List.mem_cons_self
      obtain ⟨_, same, kept, fills⟩ := inv.resume awake time
      obtain rfl := Except.ok.inj (first.symm.trans same)
      exact ih kept (inv.resume_noIdle noIdle awake first)
        (fun other member =>
          fills.started (started other (List.mem_cons_of_mem waiter member)))
        run

theorem Inv.exit_noIdle (inv : Inv ∅ scheduler) (noIdle : scheduler.NoIdle)
    {thread : ThreadId} (running : scheduler.status thread = .running)
    (placed : scheduler.threadCore thread ≠ none) {woken : List ThreadId}
    (started : ∀ waiter ∈ woken, waiter ≠ thread ∧ scheduler.Started waiter)
    {changes : List (AffinityChange n)}
    (run : scheduler.onThreadExit thread time woken changes = .ok next) :
    next.NoIdle := by
  obtain ⟨core, placed⟩ := Option.ne_none_iff_exists'.mp placed
  have waiters : ∀ waiter ∈ woken,
      (scheduler.setStatus thread .idle).Started waiter := by
    intro waiter member
    obtain ⟨different, awake⟩ := started waiter member
    unfold Started
    rw [status_setStatus, if_neg different]
    exact awake
  have idle : Inv ∅ (scheduler.setStatus thread .idle) :=
    inv.setStatus (inv.born (.inl running)) CoreState.noConfusion
  obtain ⟨exited, wakes, run⟩ := Library.bind_eq_ok.mp run
  obtain ⟨_, same, kept, fills⟩ := idle.resumeAll waiters time
  obtain rfl := Except.ok.inj (wakes.symm.trans same)
  have spared : exited.NoIdle := idle.resumeAll_noIdle noIdle waiters wakes
  obtain ⟨left, leaves, run⟩ := Library.bind_eq_ok.mp run
  obtain rfl : left = exited.lifted thread := Except.ok.inj
    (leaves.symm.trans (moveThread_none exited enough thread time))
  obtain ⟨changed, first, run⟩ := Library.bind_eq_ok.mp run
  have quiet := (kept.lift (fills.running (inv.threads.mp placed).2)).quiet
    thread
  obtain ⟨_, same, also, _, still⟩ := quiet.changeAffinities changes
  obtain rfl := Except.ok.inj (first.symm.trans same)
  have lone : (exited.lifted thread).NoIdle := spared
  refine also.leaveCore_noIdle
    (quiet.changeAffinities_noIdle (lone.stop thread) first) ?_ run
  rw [still]
  exact update_self _ _ _

/-- A thread that is created cannot run yet. -/
theorem Inv.create_noIdle (inv : Inv ∅ scheduler) (noIdle : scheduler.NoIdle)
    {initial : Fin n → Bool}
    (run : scheduler.createThread initial = .ok next) : next.NoIdle := by
  have quiet := (inv.unborn (le_refl scheduler.numThreads)).2.1
  have settled : ∀ {after : PinnedScheduler n},
      after.runnable = scheduler.runnable →
      (∀ other, other ≠ scheduler.numThreads →
        after.threadInfo other = scheduler.threadInfo other) →
      (∀ core, after.coreThreadRunning core = none →
        scheduler.coreThreadRunning core = none) → after.NoIdle := by
    intro after runnable infos running other core waits usable
    obtain ⟨able, unplaced⟩ := waits
    obtain ⟨allowed, free⟩ := usable
    rw [runnable] at able
    have different : other ≠ scheduler.numThreads := by
      rintro rfl
      rw [quiet] at able
      cases able
    rw [infos other different] at unplaced allowed
    exact noIdle _ _ ⟨able, unplaced⟩ ⟨allowed, running core free⟩
  unfold createThread at run
  extract_lets thread info pinned created at run
  split at run
  · cases run
    refine settled rfl ?_ fun _ free => free
    intro other different
    exact (update_of_ne different _ _).trans
      (update_of_ne different _ _)
  next core found =>
    obtain ⟨moved, sets, run⟩ := Library.bind_eq_ok.mp run
    cases run
    have same := setCore_tables sets
    refine settled same.runnable ?_ ?_
    · intro other different
      refine (congrFun same.threadInfo other).trans ?_
      exact (update_of_ne different _ _).trans
        (update_of_ne different _ _)
    · intro other free
      have empty := (congrFun same.running other).symm.trans free
      have apart : other ≠ core := by
        rintro rfl
        have filled : update created.coreThreadRunning other
            (some thread) other = none := empty
        rw [update_self] at filled
        cases filled
      exact (update_of_ne apart _ _).symm.trans empty

/-- The events that leave a runnable thread beside an idle core that it may
use: a thread that gives its core up by `sched_yield`, or by an affinity that
still has this core, and one that changes its own affinity while it does not
run. -/
def Strands (scheduler : PinnedScheduler n) : Event n → Prop
  | .yield thread time => scheduler.YieldStrands thread time
  | .setAffinity caller change =>
      let changed := scheduler.changeAffinity change.thread change.mask
      caller = some change.thread ∧ change.thread < scheduler.numThreads ∧
        (changed.YieldStrands change.thread change.time ∨
          changed.Waits change.thread ∧
            ∃ idle, changed.Usable change.thread idle)
  | _ => False

/-- The events of the threads, apart from the quantum's. -/
def Event.OfThread : Event n → Prop
  | .periodic _ _ => False
  | _ => True

theorem Inv.setAffinity_noIdle_iff (inv : Inv ∅ scheduler)
    (noIdle : scheduler.NoIdle) {caller : Option ThreadId}
    {change : AffinityChange n}
    (run : scheduler.threadSetAffinity caller change = .ok next) :
    next.NoIdle ↔ ¬ scheduler.Strands (.setAffinity caller change) := by
  by_cases mine : caller = some change.thread
  · subst mine
    have only := onlyStranded_changeAffinity noIdle change.thread change.mask
    have changed := inv.changeAffinity change.thread change.mask
    unfold PinnedScheduler.threadSetAffinity at run
    dsimp only at run
    split at run
    next later =>
      cases run
      refine iff_of_true ?_ fun strands => Nat.not_lt.mpr later strands.2.1
      intro other core waits usable
      obtain rfl := only _ _ waits usable
      have quiet := (changed.unborn later).2.1
      rw [waits.1] at quiet
      cases quiet
    next known =>
      rw [if_pos rfl] at run
      have born : change.thread < scheduler.numThreads :=
        Nat.lt_of_not_le known
      cases place : ((scheduler.changeAffinity change.thread
          change.mask).threadInfo change.thread).coreRunning with
      | none =>
          unfold PinnedScheduler.threadYield at run
          rw [place] at run
          cases run
          constructor
          · rintro settled ⟨_, _, strands | ⟨waits, idle, usable⟩⟩
            · obtain ⟨core, here, _⟩ := strands
              rw [place] at here
              cases here
            · exact settled _ _ waits usable
          · intro spared other core waits usable
            obtain rfl := only _ _ waits usable
            exact spared ⟨rfl, born, .inr ⟨waits, core, usable⟩⟩
      | some core =>
          have busy : ¬ (scheduler.changeAffinity change.thread
              change.mask).Waits change.thread := by
            intro waits
            rw [waits.2] at place
            cases place
          have settled : (scheduler.changeAffinity change.thread
              change.mask).NoIdle := by
            intro other idle waits usable
            obtain rfl := only _ _ waits usable
            exact busy waits
          rw [changed.threadYield_noIdle_iff settled run]
          refine not_congr ?_
          constructor
          · exact fun strands => ⟨rfl, born, .inl strands⟩
          · rintro ⟨_, _, strands | ⟨waits, _⟩⟩
            · exact strands
            · exact absurd waits busy
  · have same : scheduler.threadSetAffinity caller change =
        scheduler.threadSetAffinity none change := by
      simp [PinnedScheduler.threadSetAffinity, mine]
    rw [same] at run
    exact iff_of_true (inv.threadSetAffinity_noIdle noIdle run)
      fun strands => mine strands.1

/-- After an event of the threads no runnable thread waits beside an idle core
that it may use, if none did before and the event is not one that strands
its thread. -/
theorem noIdle_iff_not_strands {quantum : Time} {events : List (Event n)}
    (reached : run events (initial n quantum) = .ok scheduler)
    (noIdle : scheduler.NoIdle) {event : Event n} (ofThread : event.OfThread)
    (stepped : scheduler.step event = .ok next) :
    next.NoIdle ↔ ¬ scheduler.Strands event := by
  have inv := inv_run reached
  cases event with
  | create initial => exact iff_of_true (inv.create_noIdle noIdle stepped) id
  | start thread time =>
      unfold step at stepped
      dsimp only at stepped
      split at stepped
      next starting =>
        exact iff_of_true (inv.start_noIdle noIdle starting stepped) id
      · cases stepped
  | stall thread reason time changes =>
      unfold step at stepped
      dsimp only at stepped
      split at stepped
      next started =>
        exact iff_of_true (inv.stall_noIdle noIdle started stepped) id
      · cases stepped
  | resume thread time =>
      unfold step at stepped
      dsimp only at stepped
      split at stepped
      next started =>
        exact iff_of_true (inv.resume_noIdle noIdle started stepped) id
      · cases stepped
  | exit thread time woken changes =>
      unfold step at stepped
      dsimp only at stepped
      split at stepped
      next able =>
        exact iff_of_true
          (inv.exit_noIdle noIdle able.1 able.2.1 able.2.2 stepped) id
      · cases stepped
  | yield thread time => exact inv.threadYield_noIdle_iff noIdle stepped
  | setAffinity caller change =>
      exact inv.setAffinity_noIdle_iff noIdle stepped
  | periodic time changes => exact ofThread.elim

/-! ## A thread that yields -/

local instance twoCores : NeZero 2 := ⟨by decide⟩

/-- Thread 0 may run on both cores and runs on core 0, where thread 1 waits;
core 1 is idle. -/
def beforeYield : List (Event 2) :=
  [.create fun _ => true, .create fun core => core = 0, .start 0 0, .start 1 0]

/-- Before the yield nothing is wrong. -/
theorem noIdle_beforeYield {scheduler : PinnedScheduler 2}
    (reached : run beforeYield (initial 2 100) = .ok scheduler) :
    scheduler.NoIdle := by
  have seen : (run beforeYield (initial 2 100)).map (fun scheduler =>
      decide (scheduler.numThreads = 2 ∧ ∀ thread core : Fin 2,
        ¬ (scheduler.Waits thread.val ∧ scheduler.Usable thread.val core))) =
      .ok true := by
    decide +kernel
  obtain ⟨_, same, both⟩ := Library.map_eq_ok.mp seen
  obtain rfl := Except.ok.inj (reached.symm.trans same)
  obtain ⟨two, few⟩ := of_decide_eq_true both
  intro thread core waits usable
  by_cases known : thread < 2
  · exact few ⟨thread, known⟩ core ⟨waits, usable⟩
  · have quiet := ((inv_run reached).unborn
      (two.le.trans (Nat.le_of_not_lt known))).2.1
    rw [waits.1] at quiet
    cases quiet

/-- After `sched_yield` thread 0 waits although core 1 is idle. -/
theorem yield_strands_thread :
    ∃ scheduler next : PinnedScheduler 2,
      run beforeYield (initial 2 100) = .ok scheduler ∧ scheduler.NoIdle ∧
        scheduler.step (.yield 0 1000) = .ok next ∧
        next.Waits 0 ∧ next.Usable 0 1 := by
  have seen : ((run beforeYield (initial 2 100)).bind fun scheduler =>
      (scheduler.step (.yield 0 1000)).map fun next =>
        decide (next.Waits 0 ∧ next.Usable 0 1)) = .ok true := by
    decide +kernel
  obtain ⟨scheduler, reached, later⟩ := Library.bind_eq_ok.mp seen
  obtain ⟨next, stepped, stranded⟩ := Library.map_eq_ok.mp later
  exact ⟨scheduler, next, reached, noIdle_beforeYield reached, stepped,
    of_decide_eq_true stranded⟩

/-- When thread 0 stalls instead, thread 1 gets its core. -/
theorem noIdle_iff_not_strands_stall :
    ∃ scheduler next : PinnedScheduler 2,
      scheduler.step (.stall 0 .futex 1000 []) = .ok next ∧
        next.coreThreadRunning 0 = some 1 ∧
        (next.NoIdle ↔ ¬ scheduler.Strands (.stall 0 .futex 1000 [])) := by
  have seen : ((run beforeYield (initial 2 100)).bind fun scheduler =>
      (scheduler.step (.stall 0 .futex 1000 [])).map fun next =>
        next.coreThreadRunning 0) = .ok (some 1) := by
    decide +kernel
  obtain ⟨scheduler, reached, later⟩ := Library.bind_eq_ok.mp seen
  obtain ⟨next, stepped, runs⟩ := Library.map_eq_ok.mp later
  exact ⟨scheduler, next, stepped, runs,
    noIdle_iff_not_strands reached (noIdle_beforeYield reached) trivial stepped⟩

end PinnedScheduler

end ChipletSniper.Threads
